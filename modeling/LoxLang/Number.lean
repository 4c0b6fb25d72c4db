import LoxLang.Decimal

/-! The written forms of numbers, and the remainder.
All three forms write the fewest digits that read back; they differ in where positional notation
ends, in what follows a whole number, in the sign of zero and in the texts of the values that have
no digits. -/
namespace LoxLang.Number

/-- The conventions of one written form. -/
structure Form where
  tie : Decimal.Tie
  /-- A number other than zero is written positionally from here on, -/
  positionalFrom : Float
  /-- and below this magnitude, if any is given. -/
  positionalBelow : Option Float
  /-- A whole number written positionally ends in `.0` below this magnitude. -/
  pointZeroBelow : Float
  negativeZero : String
  notANumber : String
  infinity : String
  negativeInfinity : String

def Form.isPositional (form : Form) (x : Float) : Bool :=
  x == 0 || (form.positionalFrom ≤ x.abs && form.positionalBelow.all (x.abs < ·))

/-- The text of the magnitude of a finite number. -/
def Form.magnitude (form : Form) (x : Float) : String :=
  let d := Decimal.shortest form.tie x
  if form.isPositional x then
    d.positional ++ (if d.isWhole && x.abs < form.pointZeroBelow then ".0" else "")
  else d.scientific

def Form.write (form : Form) (x : Float) : String :=
  if x.isNaN then form.notANumber
  else if x.isInf then (if 0 < x then form.infinity else form.negativeInfinity)
  else if x.toBits = (-0.0 : Float).toBits then form.negativeZero
  else (if x < 0 then "-" else "") ++ form.magnitude x

/-- The form of the numbers that `print` shows: whole numbers have no point, and zero has no sign. -/
def displayForm : Form where
  tie := .up
  positionalFrom := 1e-6
  positionalBelow := some 1e21
  pointZeroBelow := 0
  negativeZero := "0"
  notANumber := "NaN"
  infinity := "Infinity"
  negativeInfinity := "-Infinity"

/-- Numbers in a token listing: never an exponent, and a point after whole numbers below 1e21. -/
def listingForm : Form where
  tie := .up
  positionalFrom := 0
  positionalBelow := none
  pointZeroBelow := 1e21
  negativeZero := "0.0"
  notANumber := "NaN"
  infinity := "inf"
  negativeInfinity := "-inf"

/-- Numbers in JSON, which has no text for the values without digits. -/
def jsonForm : Form where
  tie := .even
  positionalFrom := 1e-5
  positionalBelow := some 1e16
  pointZeroBelow := 1e16
  negativeZero := "-0.0"
  notANumber := "null"
  infinity := "null"
  negativeInfinity := "null"

/-- The magnitude of a finite number that has no fraction. -/
def whole? (x : Float) : Option Nat :=
  let (significand, exponent) := Decimal.binaryParts x
  let unit := Nat.pow 2 (-exponent).toNat
  if !x.isFinite then none
  else if 0 ≤ exponent then some (significand * Nat.pow 2 exponent.toNat)
  else if significand % unit = 0 then some (significand / unit)
  else none

/-- A whole number below this one is shown by its own digits. -/
def digitsBelow : Nat := 1000000000000000

/-- A number as `print` shows it. The digits of a whole number that is not too large need no search for
the shortest ones. -/
def display (x : Float) : String :=
  match whole? x with
  | some n =>
    if n < digitsBelow then (if x < 0 then "-" else "") ++ toString n else displayForm.write x
  | none => displayForm.write x

/-- The number whose decimal digits are `whole`, then after the point `fraction`. -/
def ofDigits (whole fraction : List Char) : Float :=
  let digits := (whole ++ fraction).foldl (fun n c => 10 * n + (c.toNat - '0'.toNat)) 0
  Decimal.toFloat ⟨digits, -(fraction.length : Int)⟩

/-- What is left of `x` after taking away `y` as often as it goes, with the sign of `x`. It is
computed on the exact magnitudes over their common power of two, so nothing is rounded. -/
def remainder (x y : Float) : Float :=
  if x.isNaN || y.isNaN || x.isInf || y == 0 then 0.0 / 0.0
  else if y.isInf then x
  else
    let (m, p) := Decimal.binaryParts x
    let (n, q) := Decimal.binaryParts y
    let e := min p q
    let rest := (m * Nat.pow 2 (p - e).toNat) % (n * Nat.pow 2 (q - e).toNat)
    let magnitude := (Decimal.ofBinary rest e).toFloat
    if x.toBits >>> 63 = 1 then -magnitude else magnitude

end LoxLang.Number
