import LoxLang.Error.Grammar
import LoxLang.Expr

/-! The state of reading a token list, and the steps from which the rules of the grammar are built.
A rule consumes tokens from the front, takes identities for references in order, and may report a
fault and go on. A rule that rejects its input leaves the cursor where the fault was found, which is
where recovery starts. Rules recur on a budget; `budget` is enough for every token list. -/
namespace LoxLang.Grammar

structure Cursor where
  /-- The tokens ahead, without the end marker. -/
  ahead : List Token
  /-- The end marker. -/
  stop : Token
  nextId : NodeId
  /-- The faults reported so far, in order. -/
  reported : List SyntaxError

/-- The cursor before the first token. A list is read up to its first end marker. -/
def Cursor.start (tokens : List Token) : Cursor where
  ahead := tokens.takeWhile (·.kind ≠ .endOfFile)
  stop := (tokens.find? (·.kind = .endOfFile)).getD (.endOfFile 1)
  nextId := 0
  reported := []

/-- The next token, or the end marker. -/
def Cursor.next (c : Cursor) : Token := c.ahead.headD c.stop

/-- Why a rule gives no result. -/
inductive Failure where
  | rejected (e : SyntaxError)
  | exhausted

/-- A rule of the grammar. -/
abbrev Rule := EStateM Failure Cursor

def exhausted {α : Type} : Rule α := throw .exhausted

def reject {α : Type} (cause : SyntaxError.Cause) (found : Token) : Rule α :=
  throw (.rejected ⟨cause, found⟩)

def next : Rule Token := fun c => .ok c.next c

def atEnd : Rule Bool := fun c => .ok c.ahead.isEmpty c

/-- Whether the next token is of this kind. -/
def sees (kind : Token.Kind) : Rule Bool := fun c =>
  .ok (c.ahead.head?.any (·.kind = kind)) c

/-- Steps over the next token, but not over the end marker. -/
def advance : Rule Unit := fun c => .ok () { c with ahead := c.ahead.tail }

/-- Steps over the next token if it is of this kind. -/
def accept (kind : Token.Kind) : Rule (Option Token) := fun c =>
  match c.ahead with
  | [] => .ok none c
  | t :: rest => if t.kind = kind then .ok (some t) { c with ahead := rest } else .ok none c

/-- Steps over the next token, which must be of this kind. -/
def expect (kind : Token.Kind) (cause : SyntaxError.Cause) : Rule Token := do
  match ← accept kind with
  | some t => return t
  | none => reject cause (← next)

def expectSymbol (s : Symbol) (place : SyntaxError.Place) : Rule Unit := do
  let _ ← expect (.symbol s) (.missingSymbol s place)

def expectName (role : SyntaxError.NameRole) : Rule Token :=
  expect .identifier (.missingName role)

/-- Notes a fault that does not end the rule. -/
def report (cause : SyntaxError.Cause) (found : Token) : Rule Unit := fun c =>
  .ok () { c with reported := c.reported ++ [⟨cause, found⟩] }

/-- The identity of a new reference. -/
def freshId : Rule NodeId := fun c => .ok c.nextId { c with nextId := c.nextId + 1 }

def reference (name : Token) : Rule Reference := return ⟨← freshId, name⟩

/-- What follows a token of this kind, if one is next. -/
def optionalAfter {α : Type} (kind : Token.Kind) (rule : Rule α) : Rule (Option α) := do
  match ← accept kind with
  | none => return none
  | some _ => some <$> rule

/-- A list, empty where its closing symbol is next. -/
def listUnless {α : Type} (closing : Symbol) (rule : Rule (List α)) : Rule (List α) := do
  if ← sees (.symbol closing) then return [] else rule

/-- The most arguments of a call, and the most parameters of a declaration. -/
def maxArity : Nat := 255

/-- Reports the next token where it begins one element too many, after `before` others. -/
def boundArity (before : Nat) (cause : SyntaxError.Cause) : Rule Unit := do
  if maxArity ≤ before then report cause (← next)

/-- More than the deepest recursion on `tokens`: between one token and the next, a chain of rules
is never longer than 32. -/
def budget (tokens : List Token) : Nat := 32 * (tokens.length + 1)

end LoxLang.Grammar
