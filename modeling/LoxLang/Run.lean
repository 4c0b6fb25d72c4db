import LoxLang.Evaluation
import LoxLang.Program

/-! Running a program: read, resolve, execute. A stage is entered only if no earlier one found a
fault. Printed text goes to one sink; diagnostics, each on a line of its own, go to another. -/
namespace LoxLang

/-- Which kinds of failure a run hit. -/
structure RunStatus where
  /-- A fault of the form of the program or of its scopes was reported. -/
  hadError : Bool
  /-- A runtime fault stopped the program. -/
  hadRuntimeError : Bool
  deriving DecidableEq, Repr

/-- How a run ends: with a status, or because it could not write or had no fuel left. -/
inductive Ending where
  | finished (status : RunStatus)
  | sinkFull
  | exhausted
  deriving DecidableEq, Repr

namespace Ending

@[match_pattern]
def completed : Ending := .finished ⟨false, false⟩

/-- The program was refused before it ran. -/
@[match_pattern]
def refused : Ending := .finished ⟨true, false⟩

/-- A runtime fault stopped the program. -/
@[match_pattern]
def stopped : Ending := .finished ⟨false, true⟩

def hadError : Ending → Bool
  | .finished status => status.hadError
  | _ => false

def hadRuntimeError : Ending → Bool
  | .finished status => status.hadRuntimeError
  | _ => false

end Ending

/-- How a run ended, and its sinks afterwards. -/
structure Outcome where
  ending : Ending
  out : Sink
  err : Sink

/-- Writes diagnostics until one does not fit. -/
def Sink.report (sink : Sink) : List Diagnostic → Bool × Sink
  | [] => (true, sink)
  | d :: rest =>
    match sink.write (d.text ++ "\n") with
    | (true, sink) => sink.report rest
    | (false, sink) => (false, sink)

/-- The ending of a run that leaves these diagnostics. -/
def conclude (out err : Sink) (ending : Ending) (ds : List Diagnostic) : Outcome :=
  match err.report ds with
  | (true, err) => ⟨ending, out, err⟩
  | (false, err) => ⟨.sinkFull, out, err⟩

/-- Runs a program with `fuel` units for each top-level statement. -/
def Program.run (program : Program) (fuel : Nat) (clock : Nat → Float) (out err : Sink) : Outcome :=
  if !program.faults.isEmpty then conclude out err .refused program.faults
  else
    let (depths, faults) := Scope.resolve program.statements
    if !faults.isEmpty then conclude out err .refused (faults.map .scope)
    else
      match Eval.interpret fuel program.statements (.start depths out clock) with
      | .ok _ m => ⟨.completed, m.output, err⟩
      | .error (.fault e) m => conclude m.output err .stopped [.runtime e]
      | .error .sinkFull m => ⟨.sinkFull, m.output, err⟩
      | .error .exhausted m => ⟨.exhausted, m.output, err⟩

/-- Runs a source text. -/
def run (fuel : Nat) (clock : Nat → Float) (source : String) (out err : Sink) : Outcome :=
  (Program.read source).run fuel clock out err

end LoxLang
