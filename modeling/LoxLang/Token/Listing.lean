import LoxLang.Number
import LoxLang.Text.Quoted
import LoxLang.Token

/-! Token listings: one line per token, or a JSON array indented by two spaces.
A line holds the kind, the lexeme and the literal value, with `null` where a kind has none. -/
namespace LoxLang.Token

/-- The third column of a listing. -/
def Kind.literalText : Kind → String
  | .string text => text
  | .number value => Number.listingForm.write value
  | _ => "null"

def listingLine (t : Token) : String :=
  t.kind.name ++ " " ++ t.lexeme ++ " " ++ t.kind.literalText

/-- The value of a literal kind in JSON; the other kinds have none. -/
def Kind.jsonPayload? : Kind → Option String
  | .string text => some (Text.jsonString text)
  | .number value => some (Number.jsonForm.write value)
  | _ => none

/-- A token as a JSON object on one line. -/
def jsonLine (t : Token) : String :=
  let kind := match t.kind.jsonPayload? with
    | none => "\"" ++ t.kind.name ++ "\""
    | some payload => "\x7b\"" ++ t.kind.name ++ "\":" ++ payload ++ "\x7d"
  "\x7b\"token_type\":" ++ kind ++ ",\"lexeme\":" ++ Text.jsonString t.lexeme
    ++ ",\"line\":" ++ toString t.line ++ "\x7d"

/-- A token as an element of the indented array. -/
def jsonElement (t : Token) : String :=
  let kind := match t.kind.jsonPayload? with
    | none => "\"" ++ t.kind.name ++ "\""
    | some payload => "\x7b\n      \"" ++ t.kind.name ++ "\": " ++ payload ++ "\n    \x7d"
  "  \x7b\n    \"token_type\": " ++ kind ++ ",\n    \"lexeme\": " ++ Text.jsonString t.lexeme
    ++ ",\n    \"line\": " ++ toString t.line ++ "\n  \x7d"

/-- The indented JSON array of a token list. -/
def jsonListing : List Token → String
  | [] => "[]"
  | tokens => "[\n" ++ ",\n".intercalate (tokens.map jsonElement) ++ "\n]"

end LoxLang.Token
