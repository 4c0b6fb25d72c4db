import LoxLang.Grammar.Expression
import LoxLang.Stmt

/-! The rules of statements:

    program     = declaration*
    declaration = "class" IDENTIFIER ( "<" IDENTIFIER )? "{" function* "}"
                | "fun" function | varDecl | statement
    function    = IDENTIFIER "(" parameters? ")" block
    varDecl     = "var" IDENTIFIER ( "=" expression )? ";"
    statement   = expression ";" | "print" expression ";" | "return" expression? ";" | block
                | "if" "(" expression ")" statement ( "else" statement )?
                | "while" "(" expression ")" statement
                | "for" "(" ( varDecl | expression ";" | ";" ) expression? ";" expression? ")"
                  statement
    block       = "{" declaration* "}"

A rejected declaration is reported and left out, and reading goes on at the next statement
boundary. A `for` loop becomes a block of its initializer and a `while` loop whose body is a block
of the body and the increment. -/
namespace LoxLang.Grammar

/-- The words that begin a statement, at which recovery stops. -/
def startsStatement (t : Token) : Bool :=
  match t.kind with
  | .keyword .class_ | .keyword .fun_ | .keyword .var_ | .keyword .for_ | .keyword .if_
  | .keyword .while_ | .keyword .print_ | .keyword .return_ => true
  | _ => false

/-- What is ahead of the next statement boundary after `skipped`: the place behind a semicolon, or
before a word that begins a statement. -/
def fromBoundary (skipped : Token) : List Token → List Token
  | [] => []
  | t :: rest =>
    if skipped.kind = .symbol .semicolon || startsStatement t then t :: rest
    else fromBoundary t rest

/-- Skips the token ahead and goes on to the next statement boundary. -/
def Cursor.recover (c : Cursor) : Cursor :=
  match c.ahead with
  | [] => c
  | t :: rest => { c with ahead := fromBoundary t rest }

/-- Reports what a rule rejects and recovers. -/
def recovering (rule : Rule Stmt) : Rule (Option Stmt) := fun c =>
  match rule c with
  | .ok s c => .ok (some s) c
  | .error (.rejected e) c => .ok none { c with reported := c.reported ++ [e] }.recover
  | .error .exhausted c => .error .exhausted c

/-- The statement of a loop with an optional increment after each round. -/
def loopBody (body : Stmt) : Option Expr → Stmt
  | none => body
  | some increment => .block [body, .expression increment]

/-- A `for` loop in terms of `while`. A missing condition is true. -/
def forLoop (initializer : Option Stmt) (condition increment : Option Expr) (body : Stmt) : Stmt :=
  let loop := Stmt.while_ (condition.getD (.literal (.boolean true))) (loopBody body increment)
  match initializer with
  | none => loop
  | some first => .block [first, loop]

/-- An expression, unless the next token is `closing`. -/
def expressionUnless (closing : Symbol) (n : Nat) : Rule (Option Expr) := do
  if ← sees (.symbol closing) then return none else return some (← assignment n)

def expressionStatement (n : Nat) : Rule Stmt := do
  let e ← assignment n
  expectSymbol .semicolon .afterExpressionStatement
  return .expression e

def printStatement (n : Nat) : Rule Stmt := do
  let e ← assignment n
  expectSymbol .semicolon .afterPrintedValue
  return .print e

def returnStatement (keyword : Token) (n : Nat) : Rule Stmt := do
  let value ← expressionUnless .semicolon n
  expectSymbol .semicolon .afterReturnValue
  return .return_ keyword value

def varDeclaration (n : Nat) : Rule Stmt := do
  let name ← expectName .ofVariable
  let initializer ← optionalAfter (.symbol .equal) (assignment n)
  expectSymbol .semicolon .afterVariable
  return .var name initializer

/-- A condition in parentheses. -/
def condition (opening closing : SyntaxError.Place) (n : Nat) : Rule Expr := do
  expectSymbol .leftParen opening
  let e ← assignment n
  expectSymbol .rightParen closing
  return e

/-- The clause of a `for` loop that runs once. -/
def forInitializer (n : Nat) : Rule (Option Stmt) := do
  let t ← next
  match t.kind with
  | .symbol .semicolon => advance; return none
  | .keyword .var_ => advance; some <$> varDeclaration n
  | _ => some <$> expressionStatement n

/-- One or more parameters, after `before` others. -/
def parameters : Nat → Nat → Rule (List Token)
  | 0, _ => exhausted
  | n + 1, before => do
    boundArity before .tooManyParameters
    let first ← expectName .ofParameter
    match ← accept (.symbol .comma) with
    | none => return [first]
    | some _ => return first :: (← parameters n (before + 1))

mutual

/-- A declaration; none if it was rejected. -/
def declaration : Nat → Rule (Option Stmt)
  | 0 => exhausted
  | n + 1 => recovering do
    let t ← next
    match t.kind with
    | .keyword .class_ => advance; classDeclaration n
    | .keyword .fun_ => advance; .function <$> routine n .function
    | .keyword .var_ => advance; varDeclaration n
    | _ => statement n

def classDeclaration : Nat → Rule Stmt
  | 0 => exhausted
  | n + 1 => do
    let name ← expectName .ofClass
    let superclass ← optionalAfter (.symbol .less) (reference =<< expectName .ofSuperclass)
    expectSymbol .leftBrace .beforeClassBody
    let methods ← methods n
    expectSymbol .rightBrace .afterClassBody
    return .class_ name superclass methods

/-- Methods up to a closing brace or the end. -/
def methods : Nat → Rule (List Declaration)
  | 0 => exhausted
  | n + 1 => do
    if (← atEnd) || (← sees (.symbol .rightBrace)) then return []
    let first ← routine n .method
    return first :: (← methods n)

/-- The name, parameters and body of a function or method. -/
def routine : Nat → Routine → Rule Declaration
  | 0, _ => exhausted
  | n + 1, role => do
    let name ← expectName (.ofRoutine role)
    expectSymbol .leftParen (.afterRoutineName role)
    let parameters ← listUnless .rightParen (parameters n 0)
    expectSymbol .rightParen .afterParameters
    expectSymbol .leftBrace (.beforeRoutineBody role)
    return ⟨name, parameters, ← block n⟩

/-- The declarations of a block, whose opening brace has been read, and its closing brace. -/
def block : Nat → Rule (List Stmt)
  | 0 => exhausted
  | n + 1 => do
    let body ← blockDeclarations n
    expectSymbol .rightBrace .afterBlock
    return body

/-- Declarations up to a closing brace or the end. -/
def blockDeclarations : Nat → Rule (List Stmt)
  | 0 => exhausted
  | n + 1 => do
    if (← atEnd) || (← sees (.symbol .rightBrace)) then return []
    let first ← declaration n
    return first.toList ++ (← blockDeclarations n)

def statement : Nat → Rule Stmt
  | 0 => exhausted
  | n + 1 => do
    let t ← next
    match t.kind with
    | .keyword .for_ => advance; forStatement n
    | .keyword .if_ => advance; ifStatement n
    | .keyword .while_ => advance; whileStatement n
    | .keyword .return_ => advance; returnStatement t n
    | .symbol .leftBrace => advance; .block <$> block n
    | .keyword .print_ => advance; printStatement n
    | _ => expressionStatement n

def forStatement : Nat → Rule Stmt
  | 0 => exhausted
  | n + 1 => do
    expectSymbol .leftParen .afterFor
    let initializer ← forInitializer n
    let condition ← expressionUnless .semicolon n
    expectSymbol .semicolon .afterLoopCondition
    let increment ← expressionUnless .rightParen n
    expectSymbol .rightParen .afterForClauses
    return forLoop initializer condition increment (← statement n)

def ifStatement : Nat → Rule Stmt
  | 0 => exhausted
  | n + 1 => do
    let test ← condition .afterIf .afterIfCondition n
    let thenBranch ← statement n
    return .if_ test thenBranch (← optionalAfter (.keyword .else_) (statement n))

def whileStatement : Nat → Rule Stmt
  | 0 => exhausted
  | n + 1 => do
    let test ← condition .afterWhile .afterWhileCondition n
    return .while_ test (← statement n)

end

/-- Declarations up to the end. -/
def program : Nat → Rule (List Stmt)
  | 0 => exhausted
  | n + 1 => do
    if ← atEnd then return []
    let first ← declaration n
    return first.toList ++ (← program n)

/-- A whole token list as a program: the statements that were not rejected, and the faults. -/
def readProgram (tokens : List Token) : List Stmt × List SyntaxError :=
  match program (budget tokens) (.start tokens) with
  | .ok statements c => (statements, c.reported)
  | .error (.rejected e) c => ([], c.reported ++ [e])
  | .error .exhausted c => ([], c.reported)

end LoxLang.Grammar
