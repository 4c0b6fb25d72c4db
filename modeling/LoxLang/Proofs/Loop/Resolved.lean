import LoxLang.Proofs.Evaluation.Carrying
import LoxLang.Proofs.Loop.Direct

/-! The depths of a loop that is resolved as it is written. Beside the depths of a program there are some
for the references of the loop under identities of their own, since no two of these share one. -/
namespace LoxLang.ForLoop
open Scope

/-- These depths have those of a program and, under identities that are greater by `above`, the depths of
the references of the loop where it stands inside these levels as it is written. -/
structure Resolved (l : ForLoop) (program : List Stmt) (levels : List Level) (above : Nat)
    (depths depths' : Depths) : Prop where
  kept : ∀ o ∈ Scope.occurrences program, depths'[o.id]? = depths[o.id]?
  own : ∀ o ∈ l.occurrences levels, depths'[o.id + above]? = o.depth?

/-- Depths to which those of occurrences have been added. -/
def recorded (above : Nat) (depths : Depths) (found : List Occurrence) : Depths :=
  found.foldr (fun o recorded => recorded.alter (o.id + above) fun _ => o.depth?) depths

variable {above : Nat} {depths : Depths} {found : List Occurrence}

theorem recorded_other {id : Nat} (other : ∀ o ∈ found, o.id + above ≠ id) :
    (recorded above depths found)[id]? = depths[id]? := by
  induction found with
  | nil => rfl
  | cons o rest ih =>
    obtain ⟨here, later⟩ := List.forall_mem_cons.mp other
    change (Std.TreeMap.alter (recorded above depths rest) (o.id + above) fun _ => o.depth?)[id]? = _
    rw [Std.TreeMap.getElem?_alter, if_neg (by simpa using here), ih later]

theorem recorded_own (apart : (found.map Occurrence.id).Nodup) :
    ∀ o ∈ found, (recorded above depths found)[o.id + above]? = o.depth? := by
  induction found with
  | nil => exact nofun
  | cons o rest ih =>
    obtain ⟨new, others⟩ := List.nodup_cons.mp apart
    intro o' member
    change (Std.TreeMap.alter (recorded above depths rest) (o.id + above) fun _ => o.depth?)[_]? = _
    rw [Std.TreeMap.getElem?_alter]
    rcases List.mem_cons.mp member with rfl | later
    · simp
    · have unlike : o.id ≠ o'.id := fun same => new (same ▸ List.mem_map_of_mem later)
      rw [if_neg (by simpa using unlike), ih others o' later]

/-- The loop has the references of its tree. -/
theorem occurrences_reference (l : ForLoop) (levels : List Level) :
    (l.occurrences levels).map Occurrence.reference = l.tree.references := by
  obtain ⟨initializer, condition, increment, body, plain⟩ := l
  have absent : (Expr.literal (.boolean true)).references = [] := rfl
  cases initializer <;> cases condition <;> cases increment <;>
    simp [occurrences, repeatedOccurrences, clauseOccurrences, tree, Grammar.forLoop, Grammar.loopBody,
      Stmt.references, Stmt.referencesOf, exprOccurrences_reference, stmtOccurrences_reference, absent]

/-- A loop whose references have identities of their own can be resolved as it is written, beside a program
whose identities are all smaller than those that the loop gets. -/
theorem exists_resolved (l : ForLoop) {program : List Stmt} (levels : List Level) (depths : Depths)
    (apart : (l.tree.references.map Reference.id).Nodup)
    (below : ∀ o ∈ Scope.occurrences program, o.id < above) :
    ∃ depths', l.Resolved program levels above depths depths' := by
  refine ⟨recorded above depths (l.occurrences levels), fun o member => ?_, recorded_own ?_⟩
  · apply recorded_other
    intro o' _
    have small := below o member
    omega
  · rw [← l.occurrences_reference levels, List.map_map] at apart
    exact apart

end LoxLang.ForLoop
