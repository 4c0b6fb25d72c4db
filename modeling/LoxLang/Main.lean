import LoxLang.CommandLine
import Std.Time.DateTime.Timestamp

/-! The program on the command line. Files are read and made before the command is answered, the
clock gives seconds since the Unix epoch and counts one microsecond from each reading to the next,
and both texts are written when the command has ended. -/
namespace LoxLang

/-- The reason of a failed access, as the system words it. -/
def accessFailure (e : IO.Error) : String :=
  match e with
  | .noFileOrDirectory _ _ _ => "No such file or directory (os error 2)"
  | .permissionDenied _ _ _ => "Permission denied (os error 13)"
  | e => toString e

def attempt {α : Type} (action : IO α) : IO (Except String α) := do
  match ← action.toBaseIO with
  | .ok a => return .ok a
  | .error e => return .error (accessFailure e)

/-- The files that a command needs, as far as the machine grants them. -/
def grantedFiles : CommandLine.Request → IO CommandLine.Files
  | .command c => do
    let created ← match c.log with
      | none => pure (Except.ok ())
      | some file => attempt (IO.FS.writeFile file "")
    let content ← attempt (IO.FS.readBinFile c.file)
    return ⟨fun _ => content, fun _ => created⟩
  | _ => return ⟨fun _ => .error "", fun _ => .error ""⟩

/-- The time in seconds of a reading, from `start` in microseconds. -/
def clockFrom (start : Nat) (reading : Nat) : Float := (start + reading).toFloat / 1000000.0

end LoxLang

def main (arguments : List String) : IO UInt32 := do
  let files ← LoxLang.grantedFiles (LoxLang.CommandLine.request arguments)
  let now ← Std.Time.Timestamp.now
  let start := now.toNanosecondsSinceUnixEpoch.val.toNat / 1000
  let fuel := Nat.pow 2 62
  let answer := LoxLang.CommandLine.answer fuel (LoxLang.clockFrom start) files arguments
  IO.print answer.out
  IO.eprint answer.err
  return answer.code.toUInt32
