import LoxLang.Proofs.Evaluation.Fuel
import LoxLang.Proofs.Loop.Direct

/-! The tree of a `for` loop runs as the loop does, except that a loop with an increment runs each round in
a scope of its own. The two spend fuel in different places, so what one of them does the other one does with
more fuel. -/
namespace LoxLang
namespace Eval

variable {α : Type}

theorem andThen_normal (first : Eval Completion) : andThen first (return .normal) = first := by
  refine Eq.trans (bind_congr fun completion => ?_) (bind_pure first)
  cases completion <;> rfl

/-- A block of two statements. -/
theorem execute_pair (n : Nat) (s t : Stmt) :
    execute (n + 4) (.block [s, t]) = inScope (andThen (execute (n + 2) s) (execute (n + 1) t)) := by
  have last : executeAll (n + 2) [t] = execute (n + 1) t := andThen_normal _
  rw [← last]
  rfl

theorem loop_succ (n : Nat) (e : Expr) (s : Stmt) :
    loop (n + 1) e s = (do
      if ← (do return (← evaluate n e).isTruthy : Eval Bool) then andThen (execute n s) (loop n e s)
      else return .normal) := by
  rw [bind_assoc]
  rfl

namespace Continued

theorem trans {one two three : Eval α} (first : Continued one two) (second : Continued two three) :
    Continued one three := by
  intro m
  have onward := second m
  apply (first m).mono
  · exact fun a after ended => onward.ok_of ended
  · rintro e after (rfl | ended)
    · exact .inl rfl
    · exact onward.error_of ended

theorem exhausted (part : Eval α) : Continued Eval.exhausted part :=
  continued_congruence.exhausted part

theorem inScope {part part' : Eval α} (inner : Continued part part') :
    Continued (inScope part) (inScope part') := by
  apply (refl currentFrame).bind
  intro outer
  apply (refl (newFrame outer [])).bind
  exact fun frame => inner.inFrame frame

theorem andThen {first first' rest rest' : Eval Completion} (one : Continued first first')
    (two : Continued rest rest') : Continued (andThen first rest) (andThen first' rest') := by
  apply one.bind
  intro completion
  cases completion with
  | normal => exact two
  | returned v => exact refl _

/-- One more round. -/
theorem again {test test' : Eval Bool} {round round' rest rest' : Eval Completion}
    (tests : Continued test test') (once : Continued round round') (later : Continued rest rest') :
    Continued (do if ← test then Eval.andThen round rest else return .normal)
      (do if ← test' then Eval.andThen round' rest' else return .normal) := by
  apply tests.bind
  intro goesOn
  split
  · exact once.andThen later
  · exact refl _

variable {n n' : Nat}

theorem evaluate (more : n ≤ n') (e : Expr) : Continued (evaluate n e) (evaluate n' e) :=
  (continued_congruence.allPaired more).evaluate e

theorem execute (more : n ≤ n') (s : Stmt) : Continued (execute n s) (execute n' s) :=
  (continued_congruence.allPaired more).execute s

end Continued

end Eval

namespace ForLoop
open Eval

variable (l : ForLoop)

/-- A round as the tree has it: in a scope of its own, if there is an increment. -/
def spacedRound (fuel : Nat) : Eval Completion :=
  match l.increment with
  | none => execute fuel l.body
  | some _ => inScope (l.round fuel)

/-- The loop with its rounds spaced out. -/
def spaced (fuel : Nat) : Eval Completion := l.withRounds fuel (l.spacedRound fuel)

variable {n n' : Nat}

/-- What is repeated in the tree is the condition and a round. -/
abbrev repeats (fuel : Nat) : Eval Completion :=
  loop fuel (l.condition.getD (.literal (.boolean true))) (Grammar.loopBody l.body l.increment)

theorem test_succ (n : Nat) : l.test (n + 1) =
    (do return (← evaluate (n + 1) (l.condition.getD (.literal (.boolean true)))).isTruthy) := by
  unfold test
  cases l.condition <;> rfl

theorem test_continued (more : n ≤ n') : Continued (l.test n) (l.test n') := by
  unfold test
  cases l.condition with
  | none => exact .refl _
  | some e => exact (Continued.evaluate more e).bind fun _ => .refl _

theorem step_continued (more : n ≤ n') : Continued (l.step n) (l.step n') := by
  unfold step
  cases l.increment with
  | none => exact .refl _
  | some e => exact (Continued.evaluate more e).bind fun _ => .refl _

/-- The body of the `while` loop is a round in a scope of its own. -/
theorem loopBody_succ {e : Expr} (present : l.increment = some e) (n : Nat) :
    execute (n + 4) (Grammar.loopBody l.body (some e)) =
      inScope (andThen (execute (n + 2) l.body) (l.step n)) := by
  unfold step
  rw [present]
  exact execute_pair n l.body (.expression e)

theorem round_of_body (more : n + 4 ≤ n') :
    Continued (execute n (Grammar.loopBody l.body l.increment)) (l.spacedRound n') := by
  unfold spacedRound
  cases present : l.increment with
  | none => exact .execute (by omega) l.body
  | some e =>
    apply (Continued.execute (Nat.le_add_right n 4) _).trans
    rw [l.loopBody_succ present]
    exact .inScope (.andThen (.execute (by omega) l.body) (l.step_continued (by omega)))

theorem body_of_round (more : n + 4 ≤ n') :
    Continued (l.spacedRound n) (execute n' (Grammar.loopBody l.body l.increment)) := by
  unfold spacedRound
  cases present : l.increment with
  | none => exact .execute (by omega) l.body
  | some e =>
    obtain ⟨k, rfl⟩ : ∃ k, n' = k + 4 := ⟨n' - 4, by omega⟩
    rw [l.loopBody_succ present]
    exact .inScope (.andThen (.execute (by omega) l.body) (l.step_continued (by omega)))

theorem rounds_of_repeats {k more : Nat} (parts : k + 4 ≤ n) (enough : k ≤ more) :
    Continued (l.repeats k) (rounds (l.test n) (l.spacedRound n) more) := by
  induction k generalizing more with
  | zero => exact .exhausted _
  | succ k ih =>
    obtain ⟨more, rfl⟩ : ∃ less, more = less + 1 := ⟨more - 1, by omega⟩
    rw [repeats, loop_succ]
    refine .again ?_ (l.round_of_body (by omega)) (ih (by omega) (by omega))
    apply ((Continued.evaluate (Nat.le_succ k) _).bind fun _ => .refl _).trans
    rw [← l.test_succ]
    exact l.test_continued (by omega)

theorem repeats_of_rounds {k more : Nat} (enough : n + more + 4 ≤ k) :
    Continued (rounds (l.test n) (l.spacedRound n) more) (l.repeats k) := by
  induction more generalizing k with
  | zero => exact .exhausted _
  | succ more ih =>
    obtain ⟨k, rfl⟩ : ∃ less, k = less + 1 := ⟨k - 1, by omega⟩
    rw [repeats, loop_succ]
    refine .again ?_ (l.body_of_round (by omega)) (ih (by omega))
    apply (l.test_continued (Nat.le_succ n)).trans
    rw [l.test_succ]
    exact (Continued.evaluate (by omega) _).bind fun _ => .refl _

/-- With more fuel the spaced loop does what the tree does. -/
theorem spaced_of_tree (more : n + 8 ≤ n') : Continued (execute n l.tree) (l.spaced n') := by
  unfold spaced withRounds tree Grammar.forLoop
  cases l.initializer with
  | none =>
    cases n with
    | zero => exact .exhausted _
    | succ n => exact l.rounds_of_repeats (by omega) (by omega)
  | some first =>
    apply (Continued.execute (Nat.le_add_right n 4) _).trans
    rw [execute_pair]
    exact .inScope (.andThen (.execute (by omega) first) (l.rounds_of_repeats (by omega) (by omega)))

/-- With more fuel the tree does what the spaced loop does. -/
theorem tree_of_spaced (more : 2 * n + 8 ≤ n') : Continued (l.spaced n) (execute n' l.tree) := by
  unfold spaced withRounds tree Grammar.forLoop
  cases l.initializer with
  | none =>
    obtain ⟨k, rfl⟩ : ∃ k, n' = k + 1 := ⟨n' - 1, by omega⟩
    exact l.repeats_of_rounds (by omega)
  | some first =>
    obtain ⟨k, rfl⟩ : ∃ k, n' = k + 4 := ⟨n' - 4, by omega⟩
    rw [execute_pair]
    exact .inScope (.andThen (.execute (by omega) first) (l.repeats_of_rounds (by omega)))

end ForLoop
end LoxLang
