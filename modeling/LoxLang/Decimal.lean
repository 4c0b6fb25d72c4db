/-! Decimals, and the decimals that stand for a binary64 number.
A finite number is a natural times a power of two, hence exactly a decimal; the shortest decimal
that reads back to it is searched among the two neighbours of that exact decimal on ever finer
grids.
Reading a decimal is core's `Float.ofScientific`. Which of two equally near neighbours is taken is
left to the caller, and so is the layout of the digits (`LoxLang.Number`). -/
namespace LoxLang

/-- The value `digits · 10 ^ exponent`. -/
structure Decimal where
  digits : Nat
  exponent : Int
  deriving DecidableEq, Repr

namespace Decimal

/-- The number nearest to a decimal. -/
def toFloat (d : Decimal) : Float :=
  Float.ofScientific d.digits (d.exponent < 0) d.exponent.natAbs

/-- The magnitude of a finite number as `significand · 2 ^ exponent`. The hidden bit stands above
the 52 bits of the fraction, and is missing from the least numbers. -/
def binaryParts (x : Float) : Nat × Int :=
  let bits := x.toBits.toNat
  let hidden := Nat.pow 2 52
  let fraction := bits % hidden
  let biased := bits / hidden % 2048
  if biased = 0 then (fraction, -1074) else (hidden + fraction, Int.ofNat biased - 1075)

/-- The decimal equal to `significand · 2 ^ exponent`: a half is five tenths. -/
def ofBinary (significand : Nat) (exponent : Int) : Decimal :=
  if 0 ≤ exponent then ⟨significand * Nat.pow 2 exponent.toNat, 0⟩
  else ⟨significand * Nat.pow 5 (-exponent).toNat, exponent⟩

/-- The decimal equal to the magnitude of a finite number. -/
def exact (x : Float) : Decimal :=
  ofBinary (binaryParts x).1 (binaryParts x).2

/-- How many digits a natural has; zero has one. -/
def digitCount (n : Nat) : Nat := (Nat.toDigits 10 n).length

/-- Which of two equally near decimals of the same length is taken. -/
inductive Tie where
  | up | even
  deriving DecidableEq, Repr

/-- The neighbour of `d` on the grid without its last `cut` digits that reads back to `target`; of
two, the nearer one. -/
def neighbour? (tie : Tie) (target : Float) (d : Decimal) (cut : Nat) : Option Decimal :=
  let unit := Nat.pow 10 cut
  let below : Decimal := ⟨d.digits / unit, d.exponent + cut⟩
  let above : Decimal := ⟨d.digits / unit + 1, d.exponent + cut⟩
  let twiceRest := 2 * (d.digits % unit)
  match decide (below.toFloat = target), decide (above.toFloat = target) with
  | true, true =>
    if twiceRest < unit then some below
    else if unit < twiceRest then some above
    else match tie with
      | .up => some above
      | .even => some (if below.digits % 2 = 0 then below else above)
  | true, false => some below
  | false, true => some above
  | false, false => none

/-- Moves trailing zeros of the digits, at most `fuel` of them, into the exponent. -/
def strip : Nat → Decimal → Decimal
  | 0, d => d
  | fuel + 1, d =>
    if d.digits ≠ 0 ∧ d.digits % 10 = 0 then strip fuel ⟨d.digits / 10, d.exponent + 1⟩ else d

/-- A decimal without trailing zeros; zero has exponent zero. -/
def normalize (d : Decimal) : Decimal :=
  if d.digits = 0 then ⟨0, 0⟩ else strip (digitCount d.digits) d

/-- A shortest decimal that reads back to the magnitude of the finite number `x`, and among those
the nearest. -/
def shortest (tie : Tie) (x : Float) : Decimal :=
  let d := exact x
  let size := digitCount d.digits
  let found := (List.range 17).findSome? fun n => neighbour? tie x.abs d (size - (n + 1))
  normalize (found.getD d)

/-- No digit is needed after the point. -/
def isWhole (d : Decimal) : Bool := 0 ≤ d.exponent

/-- The digits around a decimal point, with a zero before a point that would come first. -/
def positional (d : Decimal) : String :=
  let digits := Nat.toDigits 10 d.digits
  let point := (digits.length : Int) + d.exponent
  if 0 ≤ d.exponent then String.ofList (digits ++ List.replicate d.exponent.toNat '0')
  else if 0 < point then
    String.ofList (digits.take point.toNat ++ '.' :: digits.drop point.toNat)
  else String.ofList ('0' :: '.' :: List.replicate (-point).toNat '0' ++ digits)

/-- One digit before the point, and the exponent with its sign. -/
def scientific (d : Decimal) : String :=
  let digits := Nat.toDigits 10 d.digits
  let exponent := (digits.length : Int) - 1 + d.exponent
  let mantissa := match digits with
    | [] => []
    | [c] => [c]
    | c :: rest => c :: '.' :: rest
  let sign := if exponent < 0 then '-' else '+'
  String.ofList (mantissa ++ 'e' :: sign :: Nat.toDigits 10 exponent.natAbs)

end Decimal
end LoxLang
