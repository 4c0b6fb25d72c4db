/-! Quoted text: JSON strings, and file names inside messages.
Both put a backslash before a quote and before a backslash; they differ in how control characters
are written. All characters above the ASCII controls stand for themselves. -/
namespace LoxLang.Text

def hexDigit (n : Nat) : Char := Nat.digitChar (n % 16)

/-- A character inside a JSON string: the five short escapes, four hexadecimal digits for the other
characters below the space. -/
def jsonEscape (c : Char) : List Char :=
  if c = '"' then ['\\', '"']
  else if c = '\\' then ['\\', '\\']
  else if c = '\n' then ['\\', 'n']
  else if c = '\r' then ['\\', 'r']
  else if c = '\t' then ['\\', 't']
  else if c.toNat = 8 then ['\\', 'b']
  else if c.toNat = 12 then ['\\', 'f']
  else if c.toNat < 32 then ['\\', 'u', '0', '0', hexDigit (c.toNat / 16), hexDigit c.toNat]
  else [c]

def jsonString (s : String) : String :=
  String.ofList ('"' :: s.toList.flatMap jsonEscape ++ ['"'])

/-- A character of a quoted file name: a control character without a short escape is written as its
code in braces. -/
def nameEscape (c : Char) : List Char :=
  if c = '"' then ['\\', '"']
  else if c = '\\' then ['\\', '\\']
  else if c = '\n' then ['\\', 'n']
  else if c = '\r' then ['\\', 'r']
  else if c = '\t' then ['\\', 't']
  else if c.toNat = 0 then ['\\', '0']
  else if c.toNat < 32 ∨ c.toNat = 127 then
    ['\\', 'u', '{'] ++ Nat.toDigits 16 c.toNat ++ ['}']
  else [c]

def quotedName (s : String) : String :=
  String.ofList ('"' :: s.toList.flatMap nameEscape ++ ['"'])

end LoxLang.Text
