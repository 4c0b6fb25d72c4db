import LoxLang.Proofs.Evaluation.Within

/-! Output only grows. Whatever a part of a run prints comes behind what was printed before, and nothing
that was printed is lost, however the part ends. -/
namespace LoxLang

/-- The later sink holds what the earlier one does before anything else. -/
def Sink.Extends (after s : Sink) : Prop := ∃ more, after.written = s.written ++ more

namespace Sink

variable {s middle after : Sink}

theorem Extends.refl (s : Sink) : s.Extends s := ⟨.empty, ByteArray.append_empty.symm⟩

theorem Extends.trans (later : after.Extends middle) (first : middle.Extends s) : after.Extends s := by
  obtain ⟨late, appended⟩ := later
  obtain ⟨early, appended'⟩ := first
  exact ⟨early ++ late, by rw [appended, appended', ByteArray.append_assoc]⟩

theorem extends_write (s : Sink) (text : String) : (s.write text).2.Extends s := by
  unfold write
  dsimp only
  split
  · exact ⟨_, rfl⟩
  split <;> exact ⟨_, rfl⟩

end Sink

namespace Eval

/-- The output of the machine has grown. -/
def Printing (m after : Machine) : Prop := after.output.Extends m.output

theorem printing_steady : Steady Printing where
  refl m := .refl m.output
  trans first second := Sink.Extends.trans second first
  newFrame _ _ _ := .refl _
  define _ _ _ _ := .refl _
  newFunction _ _ _ _ := .refl _
  newClass _ _ _ _ := .refl _
  newInstance _ _ := .refl _
  setField _ _ _ _ := .refl _
  write m text := m.output.extends_write text
  readClock _ := .refl _
  inFrame _ _ _ inner := inner
  inCall _ _ inner := inner

end Eval
end LoxLang
