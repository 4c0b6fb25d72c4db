import LoxLang.Grammar.Expression

/-! The language of programs, as derivations over kinds of tokens.
`Derives phrase ts rest` says that the kinds of `ts` before `rest` are derived from the phrase. Each
constructor is an alternative of the grammar, with `?` and `*` as phrases of their own:

    program        = declaration* END
    declaration    = classDecl | funDecl | varDecl | statement
    classDecl      = "class" IDENTIFIER ( "<" IDENTIFIER )? "{" function* "}"
    funDecl        = "fun" function
    function       = IDENTIFIER "(" parameters? ")" block
    parameters     = IDENTIFIER ( "," IDENTIFIER )*
    varDecl        = "var" IDENTIFIER ( "=" expression )? ";"
    statement      = exprStmt | forStmt | ifStmt | printStmt | returnStmt | whileStmt | block
    exprStmt       = expression ";"
    forStmt        = "for" "(" ( varDecl | exprStmt | ";" ) expression? ";" expression? ")" statement
    ifStmt         = "if" "(" expression ")" statement ( "else" statement )?
    printStmt      = "print" expression ";"
    returnStmt     = "return" expression? ";"
    whileStmt      = "while" "(" expression ")" statement
    block          = "{" declaration* "}"
    expression     = assignment
    assignment     = ( call "." )? IDENTIFIER "=" assignment | conditional
    conditional    = or ( "?" expression ":" conditional )?
    or, and, equality, comparison, term, factor = operand ( operator operand )*
    power          = unary ( "**" power )?
    unary          = ( "!" | "-" ) unary | call
    call           = primary ( "(" arguments? ")" | "." IDENTIFIER )*
    arguments      = expression ( "," expression )*
    primary        = NUMBER | STRING | "true" | "false" | "nil" | "this" | IDENTIFIER
                   | "(" expression ")" | "super" "." IDENTIFIER

A phrase of parameters or arguments has their number, which functions, methods and calls bound. -/
namespace LoxLang.Grammar

inductive Phrase where
  | program | declaration | classDecl | superclass | funDecl | function | parameters (count : Nat)
  | varDecl | initializer
  | statement | exprStmt | forStmt | forFirst | ifStmt | elseBranch | printStmt | returnStmt
  | whileStmt | block
  | assignment | receiver | conditional | branches | tier (t : Tier) | operation (t : Tier)
  | power | exponent | unary | call | suffix | arguments (count : Nat) | primary
  | optional (p : Phrase)
  | many (p : Phrase)

/-- The operators between the operands of a tier. -/
def Tier.operators : Tier → List Token.Kind
  | .or_ => [.keyword .or_]
  | .and_ => [.keyword .and_]
  | .equality => [.symbol .bangEqual, .symbol .equalEqual]
  | .comparison =>
    [.symbol .greater, .symbol .greaterEqual, .symbol .less, .symbol .lessEqual]
  | .term => [.symbol .minus, .symbol .plus]
  | .factor => [.symbol .slash, .symbol .star, .symbol .percent]

/-- What stands between the operators of a tier. -/
def Tier.operands : Tier → Phrase
  | .or_ => .tier .and_
  | .and_ => .tier .equality
  | .equality => .tier .comparison
  | .comparison => .tier .term
  | .term => .tier .factor
  | .factor => .power

open Token.Kind in
inductive Derives : Phrase → List Token.Kind → List Token.Kind → Prop
  | program {ts rest} (body : Derives (.many .declaration) ts (endOfFile :: rest)) :
    Derives .program ts rest
  | ofClass {ts rest} (d : Derives .classDecl ts rest) : Derives .declaration ts rest
  | ofFunction {ts rest} (d : Derives .funDecl ts rest) : Derives .declaration ts rest
  | ofVariable {ts rest} (d : Derives .varDecl ts rest) : Derives .declaration ts rest
  | ofStatement {ts rest} (d : Derives .statement ts rest) : Derives .declaration ts rest
  | classDecl {ts body rest} (clause : Derives (.optional .superclass) ts (symbol .leftBrace :: body))
    (methods : Derives (.many .function) body (symbol .rightBrace :: rest)) :
    Derives .classDecl (keyword .class_ :: identifier :: ts) rest
  | superclass {rest} : Derives .superclass (symbol .less :: identifier :: rest) rest
  | funDecl {ts rest} (f : Derives .function ts rest) : Derives .funDecl (keyword .fun_ :: ts) rest
  | function {ts body rest count}
    (parameters : Derives (.optional (.parameters count)) ts (symbol .rightParen :: body))
    (few : count ≤ 255) (block : Derives .block body rest) :
    Derives .function (identifier :: symbol .leftParen :: ts) rest
  | lastParameter {rest} : Derives (.parameters 1) (identifier :: rest) rest
  | parameters {ts rest count} (others : Derives (.parameters count) ts rest) :
    Derives (.parameters (count + 1)) (identifier :: symbol .comma :: ts) rest
  | varDecl {ts rest} (value : Derives (.optional .initializer) ts (symbol .semicolon :: rest)) :
    Derives .varDecl (keyword .var_ :: identifier :: ts) rest
  | initializer {ts rest} (value : Derives .assignment ts rest) :
    Derives .initializer (symbol .equal :: ts) rest
  | ofExpression {ts rest} (s : Derives .exprStmt ts rest) : Derives .statement ts rest
  | ofFor {ts rest} (s : Derives .forStmt ts rest) : Derives .statement ts rest
  | ofIf {ts rest} (s : Derives .ifStmt ts rest) : Derives .statement ts rest
  | ofPrint {ts rest} (s : Derives .printStmt ts rest) : Derives .statement ts rest
  | ofReturn {ts rest} (s : Derives .returnStmt ts rest) : Derives .statement ts rest
  | ofWhile {ts rest} (s : Derives .whileStmt ts rest) : Derives .statement ts rest
  | ofBlock {ts rest} (s : Derives .block ts rest) : Derives .statement ts rest
  | exprStmt {ts rest} (value : Derives .assignment ts (symbol .semicolon :: rest)) :
    Derives .exprStmt ts rest
  | forStmt {ts test step body rest} (first : Derives .forFirst ts test)
    (condition : Derives (.optional .assignment) test (symbol .semicolon :: step))
    (increment : Derives (.optional .assignment) step (symbol .rightParen :: body))
    (s : Derives .statement body rest) :
    Derives .forStmt (keyword .for_ :: symbol .leftParen :: ts) rest
  | firstVariable {ts rest} (d : Derives .varDecl ts rest) : Derives .forFirst ts rest
  | firstExpression {ts rest} (s : Derives .exprStmt ts rest) : Derives .forFirst ts rest
  | firstNothing {rest} : Derives .forFirst (symbol .semicolon :: rest) rest
  | ifStmt {ts body other rest} (condition : Derives .assignment ts (symbol .rightParen :: body))
    (s : Derives .statement body other) (alternative : Derives (.optional .elseBranch) other rest) :
    Derives .ifStmt (keyword .if_ :: symbol .leftParen :: ts) rest
  | elseBranch {ts rest} (s : Derives .statement ts rest) :
    Derives .elseBranch (keyword .else_ :: ts) rest
  | printStmt {ts rest} (value : Derives .assignment ts (symbol .semicolon :: rest)) :
    Derives .printStmt (keyword .print_ :: ts) rest
  | returnStmt {ts rest} (value : Derives (.optional .assignment) ts (symbol .semicolon :: rest)) :
    Derives .returnStmt (keyword .return_ :: ts) rest
  | whileStmt {ts body rest} (condition : Derives .assignment ts (symbol .rightParen :: body))
    (s : Derives .statement body rest) :
    Derives .whileStmt (keyword .while_ :: symbol .leftParen :: ts) rest
  | block {ts rest} (body : Derives (.many .declaration) ts (symbol .rightBrace :: rest)) :
    Derives .block (symbol .leftBrace :: ts) rest
  | assign {ts value rest}
    (target : Derives (.optional .receiver) ts (identifier :: symbol .equal :: value))
    (assigned : Derives .assignment value rest) : Derives .assignment ts rest
  | unassigned {ts rest} (e : Derives .conditional ts rest) : Derives .assignment ts rest
  | receiver {ts rest} (object : Derives .call ts (symbol .dot :: rest)) : Derives .receiver ts rest
  | conditional {ts other rest} (condition : Derives (.tier .or_) ts other)
    (branches : Derives (.optional .branches) other rest) : Derives .conditional ts rest
  | branches {ts other rest} (thenBranch : Derives .assignment ts (symbol .colon :: other))
    (elseBranch : Derives .conditional other rest) :
    Derives .branches (symbol .question :: ts) rest
  | tier {t ts other rest} (first : Derives t.operands ts other)
    (others : Derives (.many (.operation t)) other rest) : Derives (.tier t) ts rest
  | operation {t : Tier} {operator ts rest} (member : operator ∈ t.operators)
    (right : Derives t.operands ts rest) : Derives (.operation t) (operator :: ts) rest
  | power {ts other rest} (base : Derives .unary ts other)
    (exponent : Derives (.optional .exponent) other rest) : Derives .power ts rest
  | exponent {ts rest} (e : Derives .power ts rest) :
    Derives .exponent (symbol .starStar :: ts) rest
  | not {ts rest} (right : Derives .unary ts rest) : Derives .unary (symbol .bang :: ts) rest
  | negate {ts rest} (right : Derives .unary ts rest) : Derives .unary (symbol .minus :: ts) rest
  | unsigned {ts rest} (e : Derives .call ts rest) : Derives .unary ts rest
  | call {ts other rest} (callee : Derives .primary ts other)
    (suffixes : Derives (.many .suffix) other rest) : Derives .call ts rest
  | invocation {ts rest count}
    (arguments : Derives (.optional (.arguments count)) ts (symbol .rightParen :: rest))
    (few : count ≤ 255) : Derives .suffix (symbol .leftParen :: ts) rest
  | property {rest} : Derives .suffix (symbol .dot :: identifier :: rest) rest
  | lastArgument {ts rest} (e : Derives .assignment ts rest) : Derives (.arguments 1) ts rest
  | arguments {ts others rest count} (e : Derives .assignment ts (symbol .comma :: others))
    (more : Derives (.arguments count) others rest) : Derives (.arguments (count + 1)) ts rest
  | number {value rest} : Derives .primary (number value :: rest) rest
  | string {text rest} : Derives .primary (string text :: rest) rest
  | true_ {rest} : Derives .primary (keyword .true_ :: rest) rest
  | false_ {rest} : Derives .primary (keyword .false_ :: rest) rest
  | nil_ {rest} : Derives .primary (keyword .nil_ :: rest) rest
  | this_ {rest} : Derives .primary (keyword .this_ :: rest) rest
  | name {rest} : Derives .primary (identifier :: rest) rest
  | grouping {ts rest} (e : Derives .assignment ts (symbol .rightParen :: rest)) :
    Derives .primary (symbol .leftParen :: ts) rest
  | super_ {rest} :
    Derives .primary (keyword .super_ :: symbol .dot :: identifier :: rest) rest
  | absent {p rest} : Derives (.optional p) rest rest
  | present {p ts rest} (once : Derives p ts rest) : Derives (.optional p) ts rest
  | done {p rest} : Derives (.many p) rest rest
  | more {p ts other rest} (first : Derives p ts other) (others : Derives (.many p) other rest) :
    Derives (.many p) ts rest

/-- What follows a derivation does not matter to it. -/
theorem Derives.append {p : Phrase} {ts rest : List Token.Kind} (d : Derives p ts rest)
    (tail : List Token.Kind) : Derives p (ts ++ tail) (rest ++ tail) := by
  induction d with
  | absent => exact .absent
  | done => exact .done
  | _ => grind [Derives]

end LoxLang.Grammar
