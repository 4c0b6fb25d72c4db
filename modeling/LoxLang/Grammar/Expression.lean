import LoxLang.Grammar.Cursor

/-! The rules of expressions, loosest first:

    expression  = assignment
    assignment  = ( call "." )? IDENTIFIER "=" assignment | conditional
    conditional = or ( "?" expression ":" conditional )?
    or          = and ( "or" and )*
    and         = equality ( "and" equality )*
    equality    = comparison ( ( "!=" | "==" ) comparison )*
    comparison  = term ( ( ">" | ">=" | "<" | "<=" ) term )*
    term        = factor ( ( "-" | "+" ) factor )*
    factor      = power ( ( "/" | "*" | "%" ) power )*
    power       = unary ( "**" power )?
    unary       = ( "!" | "-" ) unary | call
    call        = primary ( "(" arguments? ")" | "." IDENTIFIER )*
    primary     = NUMBER | STRING | "true" | "false" | "nil" | "this" | IDENTIFIER
                | "(" expression ")" | "super" "." IDENTIFIER

The target of an assignment is read as a conditional and judged afterwards. A binary operator with
nothing on its left is read together with its right operand before it is rejected. -/
namespace LoxLang.Grammar

/-- The left-associative operators, from the loosest. -/
inductive Tier where
  | or_ | and_ | equality | comparison | term | factor
  deriving DecidableEq, Repr

/-- The tier of the operands; those of a factor are powers. -/
def Tier.tighter? : Tier → Option Tier
  | .or_ => some .and_
  | .and_ => some .equality
  | .equality => some .comparison
  | .comparison => some .term
  | .term => some .factor
  | .factor => none

/-- The tier that a kind of token is an operator of. -/
def Tier.ofKind? : Token.Kind → Option Tier
  | .keyword .or_ => some .or_
  | .keyword .and_ => some .and_
  | .symbol .bangEqual | .symbol .equalEqual => some .equality
  | .symbol .greater | .symbol .greaterEqual | .symbol .less | .symbol .lessEqual =>
    some .comparison
  | .symbol .minus | .symbol .plus => some .term
  | .symbol .slash | .symbol .star | .symbol .percent => some .factor
  | _ => none

/-- The node of an operator between its operands. -/
def Tier.node : Tier → Expr → Token → Expr → Expr
  | .or_, left, operator, right | .and_, left, operator, right => .logical left operator right
  | _, left, operator, right => .binary left operator right

/-- An operator of this tier, stepped over. -/
def Tier.operator? (tier : Tier) : Rule (Option Token) := do
  let t ← next
  if Tier.ofKind? t.kind = some tier then
    advance
    return some t
  else return none

/-- The assignment of `value` to what was read before the equals sign; for anything but a variable
or a property the fault is reported and the value stands in. -/
def assignTo (target : Expr) (equals : Token) (value : Expr) : Rule Expr :=
  match target with
  | .variable r => return .assign (← reference r.name) value
  | .get object name => return .set object name value
  | _ => do
    report .invalidAssignmentTarget equals
    return value

/-- An operator that has nothing on its left, rejected after its right operand. -/
def leftless (operator : Token) (right : Rule Expr) : Rule Expr := do
  advance
  let _ ← right
  reject .missingLeftOperand operator

mutual

def assignment : Nat → Rule Expr
  | 0 => exhausted
  | n + 1 => do
    let target ← conditional n
    match ← accept (.symbol .equal) with
    | none => return target
    | some equals => assignTo target equals (← assignment n)

def conditional : Nat → Rule Expr
  | 0 => exhausted
  | n + 1 => do
    let condition ← binary n .or_
    match ← accept (.symbol .question) with
    | none => return condition
    | some _ =>
      let thenBranch ← assignment n
      expectSymbol .colon .afterThenBranch
      return .conditional condition thenBranch (← conditional n)

def binary : Nat → Tier → Rule Expr
  | 0, _ => exhausted
  | n + 1, tier => do binaryRest n tier (← operand n tier)

/-- The operators and operands that follow `left`. -/
def binaryRest : Nat → Tier → Expr → Rule Expr
  | 0, _, _ => exhausted
  | n + 1, tier, left => do
    match ← tier.operator? with
    | none => return left
    | some operator => binaryRest n tier (tier.node left operator (← operand n tier))

def operand : Nat → Tier → Rule Expr
  | 0, _ => exhausted
  | n + 1, tier =>
    match tier.tighter? with
    | some tighter => binary n tighter
    | none => power n

def power : Nat → Rule Expr
  | 0 => exhausted
  | n + 1 => do
    let base ← unary n
    match ← accept (.symbol .starStar) with
    | none => return base
    | some operator => return .binary base operator (← power n)

def unary : Nat → Rule Expr
  | 0 => exhausted
  | n + 1 => do
    let t ← next
    match t.kind with
    | .symbol .bang | .symbol .minus =>
      advance
      return .unary t (← unary n)
    | _ => call n

def call : Nat → Rule Expr
  | 0 => exhausted
  | n + 1 => do callRest n (← primary n)

/-- The argument lists and property names that follow `callee`. -/
def callRest : Nat → Expr → Rule Expr
  | 0, _ => exhausted
  | n + 1, callee => do
    let t ← next
    match t.kind with
    | .symbol .leftParen =>
      advance
      let arguments ← listUnless .rightParen (arguments n 0)
      let paren ← expect (.symbol .rightParen) (.missingSymbol .rightParen .afterArguments)
      callRest n (.call callee paren arguments)
    | .symbol .dot =>
      advance
      callRest n (.get callee (← expectName .ofProperty))
    | _ => return callee

/-- One or more arguments, after `before` others. -/
def arguments : Nat → Nat → Rule (List Expr)
  | 0, _ => exhausted
  | n + 1, before => do
    boundArity before .tooManyArguments
    let first ← assignment n
    match ← accept (.symbol .comma) with
    | none => return [first]
    | some _ => return first :: (← arguments n (before + 1))

def primary : Nat → Rule Expr
  | 0 => exhausted
  | n + 1 => do
    let t ← next
    match t.kind with
    | .keyword .false_ => advance; return .literal (.boolean false)
    | .keyword .true_ => advance; return .literal (.boolean true)
    | .keyword .nil_ => advance; return .literal .nil
    | .number value => advance; return .literal (.number value)
    | .string text => advance; return .literal (.string text)
    | .keyword .this_ => advance; return .this (← reference t)
    | .keyword .super_ =>
      advance
      expectSymbol .dot .afterSuper
      let method ← expectName .ofSuperclassMethod
      return .super (← reference t) method
    | .identifier => advance; return .variable (← reference t)
    | .symbol .leftParen =>
      advance
      let inner ← assignment n
      expectSymbol .rightParen .afterGrouping
      return .grouping inner
    | .symbol .bangEqual | .symbol .equalEqual => leftless t (binary n .equality)
    | .symbol .greater | .symbol .greaterEqual | .symbol .less | .symbol .lessEqual =>
      leftless t (binary n .comparison)
    | .symbol .plus => leftless t (binary n .term)
    | .symbol .slash | .symbol .star | .symbol .percent => leftless t (binary n .factor)
    | .symbol .starStar => leftless t (power n)
    | _ => reject .missingExpression t

end

/-- A whole token list as one expression, and the faults found in it. -/
def readExpression (tokens : List Token) : Option Expr × List SyntaxError :=
  let rule : Rule Expr := do
    let e ← assignment (budget tokens)
    if ← atEnd then return e else reject .missingEnd (← next)
  match rule (.start tokens) with
  | .ok e c => (some e, c.reported)
  | .error (.rejected e) c => (none, c.reported ++ [e])
  | .error .exhausted c => (none, c.reported)

end LoxLang.Grammar
