/-! UTF-8 text with faults. A sequence of bytes is cut into characters and faults: the longest start
of a character that its next byte cannot continue, a byte that can start none, or a start that the
end cuts off. Valid text never comes here with a fault, so it is read by core's own decoder. -/
namespace LoxLang.Text

/-- A character, or a run of bytes that is none. -/
inductive Chunk where
  | char (c : Char)
  | invalid (size : Nat)
  | incomplete (size : Nat)

/-- The start of a character: how many bytes are still owed, the range of the next one, the bits of
the code point so far, and how many bytes were read. -/
structure Partial where
  owed : Nat
  low : UInt8
  high : UInt8
  bits : Nat
  seen : Nat

/-- What a first byte starts, if it can start a character of several bytes. -/
def Partial.start? (b : UInt8) : Option Partial :=
  let n := b.toNat
  if 0xC2 ≤ n ∧ n ≤ 0xDF then some ⟨1, 0x80, 0xBF, n % 32, 1⟩
  else if n = 0xE0 then some ⟨2, 0xA0, 0xBF, n % 16, 1⟩
  else if n = 0xED then some ⟨2, 0x80, 0x9F, n % 16, 1⟩
  else if 0xE1 ≤ n ∧ n ≤ 0xEF then some ⟨2, 0x80, 0xBF, n % 16, 1⟩
  else if n = 0xF0 then some ⟨3, 0x90, 0xBF, n % 8, 1⟩
  else if 0xF1 ≤ n ∧ n ≤ 0xF3 then some ⟨3, 0x80, 0xBF, n % 8, 1⟩
  else if n = 0xF4 then some ⟨3, 0x80, 0x8F, n % 8, 1⟩
  else none

/-- The chunks that a byte between characters completes, and what it starts. -/
def first (b : UInt8) : List Chunk × Option Partial :=
  if b < 0x80 then ([.char (Char.ofNat b.toNat)], none)
  else
    match Partial.start? b with
    | some p => ([], some p)
    | none => ([.invalid 1], none)

/-- The chunks that a byte completes, and the character under way after it. A byte that cannot
continue a character is looked at again as a first byte. -/
def step : Option Partial → UInt8 → List Chunk × Option Partial
  | none, b => first b
  | some p, b =>
    if p.low ≤ b ∧ b ≤ p.high then
      let bits := p.bits * 64 + b.toNat % 64
      if p.owed = 1 then ([.char (Char.ofNat bits)], none)
      else ([], some ⟨p.owed - 1, 0x80, 0xBF, bits, p.seen + 1⟩)
    else
      let (chunks, under) := first b
      (.invalid p.seen :: chunks, under)

def chunksFrom : Option Partial → List UInt8 → List Chunk
  | none, [] => []
  | some p, [] => [.incomplete p.seen]
  | under, b :: rest =>
    let (chunks, under) := step under b
    chunks ++ chunksFrom under rest

def chunks (bytes : ByteArray) : List Chunk := chunksFrom none bytes.toList

/-- A text with each fault shown as the replacement character. -/
def decodeLossy (bytes : ByteArray) : String :=
  match String.fromUTF8? bytes with
  | some s => s
  | none =>
    String.ofList <| (chunks bytes).map fun
      | .char c => c
      | _ => Char.ofNat 0xFFFD

/-- Where bytes stop being text. -/
structure Utf8Error where
  index : Nat
  /-- How many bytes are at fault; none if the end cuts a character off. -/
  size : Option Nat

def Utf8Error.text (e : Utf8Error) : String :=
  match e.size with
  | some size =>
    "invalid utf-8 sequence of " ++ toString size ++ " bytes from index " ++ toString e.index
  | none => "incomplete utf-8 byte sequence from index " ++ toString e.index

/-- The first fault among chunks that start at `index`. -/
def firstFault (index : Nat) : List Chunk → Utf8Error
  | [] => ⟨index, none⟩
  | .char c :: rest => firstFault (index + c.utf8Size) rest
  | .invalid size :: _ => ⟨index, some size⟩
  | .incomplete _ :: _ => ⟨index, none⟩

def decode (bytes : ByteArray) : Except Utf8Error String :=
  match String.fromUTF8? bytes with
  | some s => .ok s
  | none => .error (firstFault 0 (chunks bytes))

end LoxLang.Text
