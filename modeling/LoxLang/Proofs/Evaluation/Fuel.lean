import LoxLang.Proofs.Evaluation.Congruence
import LoxLang.Run

/-! What more fuel changes. A run that did not run out of fuel is the same run with more of it, so
what a program does is one thing, and fuel only says how much of it is seen. -/
namespace LoxLang
namespace Eval

variable {α β : Type}

/-- Unless the first part runs out of fuel, the second one ends as it does. -/
def Continued (part part' : Eval α) : Prop :=
  ∀ m, Ends part m (fun a after => part' m = .ok a after)
    fun e after => e = .exhausted ∨ part' m = .error e after

theorem Continued.refl (part : Eval α) : Continued part part :=
  fun _ => .of_forall (fun _ _ ended => ended) fun _ _ ended => .inr ended

theorem Continued.bind {part part' : Eval α} {next next' : α → Eval β}
    (first : Continued part part') (rest : ∀ a, Continued (next a) (next' a)) :
    Continued (part >>= next) (part' >>= next') := by
  intro m
  apply Ends.bind ((first m).mono (fun _ _ => id) fun _ _ => Or.imp_right bind_of_error)
  intro a middle _ ended
  apply (rest a middle).mono
  · exact fun _ _ => (bind_of_ok ended).trans
  · exact fun _ _ => Or.imp_right (bind_of_ok ended).trans

theorem Continued.inFrame (frame : FrameId) {part part' : Eval α} (continued : Continued part part') :
    Continued (inFrame frame part) (inFrame frame part') := by
  intro m
  apply inFrame_ends
  apply (continued { m with current := frame }).mono
  · exact fun _ _ => inFrame_of_ok
  · exact fun _ _ => Or.imp_right inFrame_of_error

theorem Continued.inCall {part part' : Eval α} (continued : Continued part part') :
    Continued (inCall part) (inCall part') := by
  intro m
  apply inCall_ends
  apply (continued { m with activeCalls := m.activeCalls + 1 }).mono
  · exact fun _ _ => inCall_of_ok
  · exact fun _ _ => Or.imp_right inCall_of_error

theorem continued_congruence : Congruence Continued where
  exhausted _ _ := .inl rfl
  silent _ := .refl _
  print _ := .refl _
  bind := .bind
  inspect _ _ rest m := rest m m
  inFrame := .inFrame
  inCall := .inCall

/-- A program that does not run out of fuel does the same with more of it. -/
theorem interpret_of_more {fuel fuel' : Nat} (more : fuel ≤ fuel') {program : List Stmt} {m : Machine}
    (enough : ∀ after, interpret fuel program m ≠ .error .exhausted after) :
    interpret fuel' program m = interpret fuel program m := by
  have continued := continued_congruence.interpret more program m
  unfold Ends at continued
  split at continued
  · next ended => rw [continued, ended]
  · next ended =>
    rcases continued with rfl | same
    · exact absurd ended (enough _)
    · rw [same, ended]

end Eval

/-- A run that does not run out of fuel is the same run with more of it. -/
theorem Program.run_of_more {fuel fuel' : Nat} (more : fuel ≤ fuel') {program : Program}
    {clock : Nat → Float} {out err : Sink}
    (enough : (program.run fuel clock out err).ending ≠ .exhausted) :
    program.run fuel' clock out err = program.run fuel clock out err := by
  unfold Program.run at enough ⊢
  split
  · rfl
  next clean =>
  rw [if_neg clean] at enough
  dsimp only at enough ⊢
  split
  · rfl
  next resolved =>
  rw [if_neg resolved] at enough
  rw [Eval.interpret_of_more more]
  intro after ended
  rw [ended] at enough
  exact enough rfl

end LoxLang
