import LoxLang.Expr.PrefixForm
import LoxLang.Run
import LoxLang.Text.Quoted
import LoxLang.Text.Utf8
import LoxLang.Token.Listing

/-! The command line: `tokenize`, `parse`, `evaluate` and `run` on a file, with an optional log.
What the machine around the program grants, files and the clock, is a parameter; the answer is an
exit code and the texts for the two output streams. Log records are not written: the log file is
only made. -/
namespace LoxLang.CommandLine

inductive Task where
  | tokenize (json : Bool)
  | parse
  | evaluate
  | run
  deriving DecidableEq, Repr

structure Command where
  task : Task
  file : String
  /-- The file to log to, if there is a log. -/
  log : Option String

inductive Request where
  | version
  | command (c : Command)
  /-- The arguments fit no command. -/
  | unusable

/-- The arguments read so far; `words` are those that are no options. -/
structure Arguments where
  words : List String
  json : Bool
  log : Bool
  logFile : String

def Arguments.request (a : Arguments) : Request :=
  let log := if a.log then some a.logFile else none
  match a.words, a.json with
  | ["tokenize", file], json => .command ⟨.tokenize json, file, log⟩
  | ["parse", file], false => .command ⟨.parse, file, log⟩
  | ["evaluate", file], false => .command ⟨.evaluate, file, log⟩
  | ["run", file], false => .command ⟨.run, file, log⟩
  | _, _ => .unusable

/-- Reads arguments from left to right. Options may stand anywhere before a lone `--`; the version
is asked for before any command. -/
def readArguments (a : Arguments) : List String → Request
  | [] => a.request
  | "--" :: rest => { a with words := a.words ++ rest }.request
  | "--version" :: _ | "-V" :: _ =>
    if a.words.isEmpty then .version else .unusable
  | "--log" :: rest => readArguments { a with log := true } rest
  | "--log-file" :: file :: rest => readArguments { a with logFile := file } rest
  | "--json" :: rest => readArguments { a with json := true } rest
  | word :: rest =>
    if word.startsWith "--log-file=" then
      readArguments { a with logFile := (word.drop "--log-file=".length).toString } rest
    else if word.startsWith "-" && word ≠ "-" then .unusable
    else readArguments { a with words := a.words ++ [word] } rest

def request (arguments : List String) : Request :=
  readArguments ⟨[], false, false, "app.log"⟩ arguments

/-- What a command leaves behind. -/
structure Answer where
  code : Nat
  out : String
  err : String
  deriving DecidableEq, Repr

def refusedCode : Nat := 65

def stoppedCode : Nat := 70

/-- The files of the machine around the program; a failure is given by its reason. -/
structure Files where
  read : String → Except String ByteArray
  create : String → Except String Unit

/-- The report of a failure outside the program. -/
def failure (what reason : String) : Answer where
  code := 1
  out := ""
  err := "Error: " ++ what ++ "\n\nCaused by:\n    " ++ reason ++ "\n"

/-- Texts on lines of their own. -/
def lines (texts : List String) : String := String.join (texts.map (· ++ "\n"))

def faultLines (ds : List Diagnostic) : String := lines (ds.map Diagnostic.text)

def tokenize (json : Bool) (source : String) : Answer :=
  let (tokens, faults) := scan source
  let code := if faults.isEmpty then 0 else refusedCode
  let out := if json then lines [Token.jsonListing tokens] else lines (tokens.map Token.listingLine)
  ⟨code, out, lines (faults.map LexicalError.text)⟩

def withExpression (source : String) (answer : Expr → Answer) : Answer :=
  match Expr.read source with
  | (some e, []) => answer e
  | (_, faults) => ⟨refusedCode, "", faultLines faults⟩

def evaluate (fuel : Nat) (clock : Nat → Float) (source : String) : Answer :=
  withExpression source fun e =>
    match Eval.evaluate fuel e (.start ∅ (.ofCapacity none) clock) with
    | .ok v _ => ⟨0, lines [v.display], ""⟩
    | .error (.fault e) _ => ⟨stoppedCode, "", faultLines [.runtime e]⟩
    | .error _ _ => ⟨1, "", ""⟩

def exitCode : Ending → Nat
  | .finished status =>
    if status.hadError then refusedCode else if status.hadRuntimeError then stoppedCode else 0
  | .sinkFull | .exhausted => 1

def runSource (fuel : Nat) (clock : Nat → Float) (source : String) : Answer :=
  let o := run fuel clock source (.ofCapacity none) (.ofCapacity none)
  ⟨exitCode o.ending, Text.decodeLossy o.out.written, Text.decodeLossy o.err.written⟩

def perform (fuel : Nat) (clock : Nat → Float) (task : Task) (source : String) : Answer :=
  match task with
  | .tokenize json => tokenize json source
  | .parse => withExpression source fun e => ⟨0, lines [e.prefixForm], ""⟩
  | .evaluate => evaluate fuel clock source
  | .run => runSource fuel clock source

/-- Makes the log file if one is asked for. -/
def startLog (files : Files) : Option String → Except Answer Unit
  | none => .ok ()
  | some file =>
    match files.create file with
    | .ok () => .ok ()
    | .error reason => .error (failure ("Failed to create " ++ Text.quotedName file) reason)

def readSource (files : Files) (file : String) : Except Answer String :=
  match files.read file with
  | .error reason => .error (failure ("Failed to open file " ++ Text.quotedName file) reason)
  | .ok bytes =>
    match Text.decode bytes with
    | .ok source => .ok source
    | .error e =>
      .error (failure ("File " ++ Text.quotedName file ++ " is not valid UTF-8") e.text)

def answerCommand (fuel : Nat) (clock : Nat → Float) (files : Files) (c : Command) :
    Except Answer Answer := do
  startLog files c.log
  return perform fuel clock c.task (← readSource files c.file)

def versionLine : String := "treelox 0.1.0"

def usage : String :=
  "Usage: treelox [--log] [--log-file FILE] (tokenize [--json] | parse | evaluate | run) FILE"

def answer (fuel : Nat) (clock : Nat → Float) (files : Files) (arguments : List String) : Answer :=
  match request arguments with
  | .version => ⟨0, lines [versionLine], ""⟩
  | .unusable => ⟨2, "", lines [usage]⟩
  | .command c =>
    match answerCommand fuel clock files c with
    | .ok a => a
    | .error a => a

end LoxLang.CommandLine
