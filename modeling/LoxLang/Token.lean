/-! Tokens of Lox source text: the kinds, their spelling and the names under which they are listed.
A literal's value is part of its kind, so a token never holds a value that its kind does not call
for. How text is cut into tokens is in `LoxLang.Token.Scan`. -/
namespace LoxLang

/-- Operators and punctuation. -/
inductive Symbol where
  | leftParen | rightParen | leftBrace | rightBrace
  | comma | dot | minus | plus | semicolon | slash | star | starStar | percent | question | colon
  | bang | bangEqual | equal | equalEqual | greater | greaterEqual | less | lessEqual
  deriving DecidableEq, Repr

/-- The spelling of a symbol: one character, or two. -/
def Symbol.spelling : Symbol → List Char
  | .leftParen => ['(']
  | .rightParen => [')']
  | .leftBrace => ['{']
  | .rightBrace => ['}']
  | .comma => [',']
  | .dot => ['.']
  | .minus => ['-']
  | .plus => ['+']
  | .semicolon => [';']
  | .slash => ['/']
  | .star => ['*']
  | .starStar => ['*', '*']
  | .percent => ['%']
  | .question => ['?']
  | .colon => [':']
  | .bang => ['!']
  | .bangEqual => ['!', '=']
  | .equal => ['=']
  | .equalEqual => ['=', '=']
  | .greater => ['>']
  | .greaterEqual => ['>', '=']
  | .less => ['<']
  | .lessEqual => ['<', '=']

def Symbol.all : List Symbol :=
  [.leftParen, .rightParen, .leftBrace, .rightBrace, .comma, .dot, .minus, .plus, .semicolon,
    .slash, .star, .starStar, .percent, .question, .colon, .bang, .bangEqual, .equal, .equalEqual,
    .greater, .greaterEqual, .less, .lessEqual]

theorem Symbol.mem_all (s : Symbol) : s ∈ Symbol.all := by cases s <;> decide

/-- The symbol spelled exactly `cs`. -/
def Symbol.ofSpelling? (cs : List Char) : Option Symbol :=
  Symbol.all.find? (·.spelling == cs)

def Symbol.name : Symbol → String
  | .leftParen => "LEFT_PAREN"
  | .rightParen => "RIGHT_PAREN"
  | .leftBrace => "LEFT_BRACE"
  | .rightBrace => "RIGHT_BRACE"
  | .comma => "COMMA"
  | .dot => "DOT"
  | .minus => "MINUS"
  | .plus => "PLUS"
  | .semicolon => "SEMICOLON"
  | .slash => "SLASH"
  | .star => "STAR"
  | .starStar => "STAR_STAR"
  | .percent => "PERCENT"
  | .question => "QUESTION"
  | .colon => "COLON"
  | .bang => "BANG"
  | .bangEqual => "BANG_EQUAL"
  | .equal => "EQUAL"
  | .equalEqual => "EQUAL_EQUAL"
  | .greater => "GREATER"
  | .greaterEqual => "GREATER_EQUAL"
  | .less => "LESS"
  | .lessEqual => "LESS_EQUAL"

/-- The reserved words. -/
inductive Keyword where
  | and_ | class_ | else_ | false_ | fun_ | for_ | if_ | nil_ | or_ | print_ | return_ | super_
  | this_ | true_ | var_ | while_
  deriving DecidableEq, Repr

def Keyword.spelling : Keyword → String
  | .and_ => "and"
  | .class_ => "class"
  | .else_ => "else"
  | .false_ => "false"
  | .fun_ => "fun"
  | .for_ => "for"
  | .if_ => "if"
  | .nil_ => "nil"
  | .or_ => "or"
  | .print_ => "print"
  | .return_ => "return"
  | .super_ => "super"
  | .this_ => "this"
  | .true_ => "true"
  | .var_ => "var"
  | .while_ => "while"

def Keyword.all : List Keyword :=
  [.and_, .class_, .else_, .false_, .fun_, .for_, .if_, .nil_, .or_, .print_, .return_, .super_,
    .this_, .true_, .var_, .while_]

theorem Keyword.mem_all (k : Keyword) : k ∈ Keyword.all := by cases k <;> decide

/-- The reserved word spelled exactly `word`. -/
def Keyword.ofSpelling? (word : String) : Option Keyword :=
  Keyword.all.find? (·.spelling == word)

def Keyword.name : Keyword → String
  | .and_ => "AND"
  | .class_ => "CLASS"
  | .else_ => "ELSE"
  | .false_ => "FALSE"
  | .fun_ => "FUN"
  | .for_ => "FOR"
  | .if_ => "IF"
  | .nil_ => "NIL"
  | .or_ => "OR"
  | .print_ => "PRINT"
  | .return_ => "RETURN"
  | .super_ => "SUPER"
  | .this_ => "THIS"
  | .true_ => "TRUE"
  | .var_ => "VAR"
  | .while_ => "WHILE"

namespace Token

inductive Kind where
  | symbol (s : Symbol)
  | keyword (k : Keyword)
  | identifier
  | string (text : String)
  | number (value : Float)
  | endOfFile
  deriving DecidableEq

def Kind.name : Kind → String
  | .symbol s => s.name
  | .keyword k => k.name
  | .identifier => "IDENTIFIER"
  | .string _ => "STRING"
  | .number _ => "NUMBER"
  | .endOfFile => "EOF"

end Token

/-- A token: its kind, the source text it covers, and the line on which that text ends. -/
structure Token where
  kind : Token.Kind
  lexeme : String
  line : Nat
  deriving DecidableEq

/-- The end marker of a text whose last line is `line`. -/
def Token.endOfFile (line : Nat) : Token := ⟨.endOfFile, "", line⟩

end LoxLang
