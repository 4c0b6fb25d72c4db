import LoxLang.Proofs.Ends
import LoxLang.Run

/-! The outcome of a run, read off the end of its statements. A program without faults is interpreted
with the depths that its scopes give; whether it completes, and what stops it if it does not, is then
known from how its statements end. The verdict on a program is the outcome before its diagnostics are
written. -/
namespace LoxLang
open Eval

/-- The outcome where the statements end so. -/
def Outcome.ofResult (err : Sink) : EStateM.Result Interruption Machine Unit → Outcome
  | .ok _ m => ⟨.completed, m.output, err⟩
  | .error (.fault e) m => conclude m.output err .stopped [.runtime e]
  | .error .sinkFull m => ⟨.sinkFull, m.output, err⟩
  | .error .exhausted m => ⟨.exhausted, m.output, err⟩

theorem conclude_out (out err : Sink) (ending : Ending) (ds : List Diagnostic) :
    (conclude out err ending ds).out = out := by
  unfold conclude
  split <;> rfl

namespace Outcome

variable {err : Sink} {m m' : Machine} {e : Interruption}

theorem ofResult_error_out : (ofResult err (.error e m)).out = m.output := by
  cases e with
  | fault e => exact conclude_out m.output err .stopped [.runtime e]
  | sinkFull => rfl
  | exhausted => rfl

/-- What holds of the output at either end of the statements holds of the output of the outcome. -/
theorem ofResult_out {P : Sink → Prop} {part : Eval Unit}
    (ends : Ends part m (fun _ after => P after.output) fun _ after => P after.output) :
    P (ofResult err (part m)).out := by
  unfold Ends at ends
  split at ends
  · next ended =>
    rw [ended]
    exact ends
  · next ended =>
    rw [ended, ofResult_error_out]
    exact ends

/-- What interrupts the statements and what they have printed decide the outcome. -/
theorem ofResult_error (same : m'.output = m.output) :
    ofResult err (.error e m') = ofResult err (.error e m) := by
  cases e <;> simp only [ofResult, same]

end Outcome

namespace Program

/-- Neither the form of the program nor its scopes have a fault. -/
structure Accepted (program : Program) : Prop where
  read : program.faults = []
  resolved : (Scope.resolve program.statements).2 = []

variable {program : Program} {depths : Depths}

theorem Accepted.resolves (accepted : program.Accepted) :
    ∃ depths, Scope.resolve program.statements = (depths, []) := ⟨_, Prod.ext rfl accepted.resolved⟩

/-- An accepted program is interpreted. -/
theorem run_of_resolved (program : Program) {fuel : Nat} {clock : Nat → Float} {out err : Sink}
    (read : program.faults = []) (resolved : Scope.resolve program.statements = (depths, [])) :
    program.run fuel clock out err =
      .ofResult err (interpret fuel program.statements (.start depths out clock)) := by
  simp only [run, read, resolved, List.isEmpty_nil, Bool.not_true, Bool.false_eq_true, if_false]
  rfl

end Program

/-- How a run ends, what it has printed, and what it has to report. -/
structure Verdict where
  ending : Ending
  out : Sink
  diagnostics : List Diagnostic

/-- The outcome once the diagnostics are written. -/
def Verdict.outcome (v : Verdict) (err : Sink) : Outcome := conclude v.out err v.ending v.diagnostics

/-- What is made of a program whose statements end so. -/
def Verdict.ofResult : EStateM.Result Interruption Machine Unit → Verdict
  | .ok _ m => ⟨.completed, m.output, []⟩
  | .error (.fault e) m => ⟨.stopped, m.output, [.runtime e]⟩
  | .error .sinkFull m => ⟨.sinkFull, m.output, []⟩
  | .error .exhausted m => ⟨.exhausted, m.output, []⟩

def Program.verdict (program : Program) (fuel : Nat) (clock : Nat → Float) (out : Sink) : Verdict :=
  match program.faults, Scope.resolve program.statements with
  | [], (depths, []) => .ofResult (interpret fuel program.statements (.start depths out clock))
  | [], (_, faults) => ⟨.refused, out, faults.map .scope⟩
  | faults, _ => ⟨.refused, out, faults⟩

/-- A run of a program writes the diagnostics of its verdict. -/
theorem Program.run_eq_outcome (program : Program) (fuel : Nat) (clock : Nat → Float) (out err : Sink) :
    program.run fuel clock out err = (program.verdict fuel clock out).outcome err := by
  unfold Program.run Program.verdict
  cases program.faults with
  | cons d rest => rfl
  | nil =>
    rcases Scope.resolve program.statements with ⟨depths, _ | ⟨e, rest⟩⟩
    · dsimp only
      rcases interpret fuel program.statements (.start depths out clock) with _ | ⟨_ | _ | _, m⟩ <;> rfl
    · rfl

end LoxLang
