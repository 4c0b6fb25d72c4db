import LoxLang.Evaluation
import LoxLang.Proofs.Grammar.Proper
import LoxLang.Proofs.Grammar.Relabeling.Tree
import LoxLang.Proofs.Scope.Occurrence

/-! `for` loops run as they are written. A loop is read as a tree of blocks around a `while` loop; here it
is a loop of its own, whose initializer runs once in a new scope, and whose other clauses and body all stand
in that scope and run in its one frame. The rule for statements gives the tree of the loop that it reads. -/
namespace LoxLang

theorem Relabeling.declared?_stmt (σ : Relabeling) (s : Stmt) :
    (σ.stmt s).declared? = s.declared?.map σ.token := by
  cases s with
  | function d =>
    obtain ⟨name, parameters, body⟩ := d
    rfl
  | if_ condition thenBranch elseBranch => cases elseBranch <;> rfl
  | _ => rfl

/-- The clauses and the body of a `for` loop. -/
structure ForLoop where
  initializer : Option Stmt
  condition : Option Expr
  increment : Option Expr
  body : Stmt
  plain : body.declared? = none

namespace Eval

variable {α : Type}

/-- Runs a part in a new scope inside the current one. -/
def inScope (part : Eval α) : Eval α := do
  let frame ← newFrame (← currentFrame) []
  inFrame frame part

/-- Goes on with the rest, unless the first part returns. -/
def andThen (first rest : Eval Completion) : Eval Completion := do
  match ← first with
  | .normal => rest
  | .returned v => return .returned v

/-- Repeats rounds while the test holds, until one of them returns. -/
def rounds (test : Eval Bool) (round : Eval Completion) : Nat → Eval Completion
  | 0 => exhausted
  | more + 1 => do
    if ← test then andThen round (rounds test round more) else return .normal

end Eval

namespace ForLoop
open Eval Scope

variable (l : ForLoop)

/-- The tree that the loop is read as. -/
def tree : Stmt := Grammar.forLoop l.initializer l.condition l.increment l.body

section Running

variable (fuel : Nat)

/-- Whether there is another round: always, if there is no condition. -/
def test : Eval Bool :=
  match l.condition with
  | none => return true
  | some e => return (← evaluate fuel e).isTruthy

def step : Eval Completion :=
  match l.increment with
  | none => return .normal
  | some e => do
    let _ ← evaluate fuel e
    return .normal

/-- The body and, unless it returns, the increment. -/
def round : Eval Completion := andThen (execute fuel l.body) (l.step fuel)

/-- The initializer once, in a new scope, and then rounds. All parts have this much fuel, and there are as
many rounds at most. -/
def withRounds (round : Eval Completion) : Eval Completion :=
  let repeated := rounds (l.test fuel) round fuel
  match l.initializer with
  | none => repeated
  | some first => inScope (andThen (execute fuel first) repeated)

/-- The loop itself. -/
def direct : Eval Completion := l.withRounds fuel (l.round fuel)

end Running

/-- The same loop whose references have identities of their own, above those of a program. -/
def apart (above : Nat) : ForLoop :=
  let σ : Relabeling := ⟨id, above⟩
  { initializer := l.initializer.map σ.stmt
    condition := l.condition.map σ.expr
    increment := l.increment.map σ.expr
    body := σ.stmt l.body
    plain := by rw [σ.declared?_stmt, l.plain, Option.map_none] }

/-- The occurrences in what is repeated: the condition, the body and the increment all stand inside the
same levels. -/
def repeatedOccurrences (levels : List Level) : List Occurrence :=
  clauseOccurrences levels l.condition ++
    (stmtOccurrences levels l.body ++ clauseOccurrences levels l.increment)

/-- The occurrences in the loop. The initializer opens one scope, in which everything else stands too. -/
def occurrences (levels : List Level) : List Occurrence :=
  match l.initializer with
  | none => l.repeatedOccurrences levels
  | some first =>
    let inside : List Level := ⟨.block [first], []⟩ :: levels
    stmtOccurrences inside first ++ l.repeatedOccurrences (behind first inside)

section Reading
open Grammar

/-- The clauses and the body of the loop are what is read one after the other, from behind the keyword. -/
def ReadFrom (n : Nat) (c after : Cursor) : Prop :=
  LoopRead n c l.initializer l.condition l.increment l.body after

/-- Where the keyword is next, the rule for statements gives the tree of the loop that is read behind it. -/
theorem statement_iff {n : Nat} {c after : Cursor} {s : Stmt} (keyword : c.next.kind = .keyword .for_) :
    statement n c = .ok s after ↔
      ∃ k, n = k + 2 ∧ ∃ l : ForLoop, l.ReadFrom k c.stepped after ∧ s = l.tree := by
  rcases n with _ | _ | n
  · exact ⟨nofun, nofun⟩
  · rw [chosen_for 0 c keyword]
    exact ⟨nofun, nofun⟩
  rw [chosen_for (n + 1) c keyword, forStatement_iff]
  constructor
  · rintro ⟨i, e, step, body, read, rfl⟩
    have plain : body.declared? = none := by
      cases read with
      | parts _ _ _ _ _ _ repeated => exact statement_plain repeated
    exact ⟨n, rfl, ⟨i, e, step, body, plain⟩, read, rfl⟩
  · rintro ⟨_, ⟨⟩, l, read, rfl⟩
    exact ⟨_, _, _, _, read, rfl⟩

end Reading

end ForLoop
end LoxLang
