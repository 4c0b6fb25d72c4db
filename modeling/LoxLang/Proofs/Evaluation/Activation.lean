import LoxLang.Proofs.Evaluation.Moment
import LoxLang.Proofs.Scope.Occurrence
import LoxLang.Run

/-! Which scopes are open at a moment of a run, and which frame was made for each of them.
This is told from the history of the run: a block opens its scope in a frame of its own, a call opens
the scope of its function inside the scopes that were open where the function was made, and a method
that is bound to an instance stands inside one more scope, for `this`. The links between the frames in
the store have no part in it. -/
namespace LoxLang.Eval
open Scope

/-- A scope that has been opened, with the frame made for it. -/
inductive Activation where
  | block (body : List Stmt) (frame : FrameId)
  | routine (f : Function) (frame : FrameId)
  | receiver (methods : List Declaration) (i : Instance) (frame : FrameId)
  | parent (methods : List Declaration) (c : Class) (frame : FrameId)

namespace Activation

def site : Activation → Site
  | .block body _ => .block body
  | .routine f _ => .routine f.declaration
  | .receiver methods _ _ => .receiver methods
  | .parent methods _ _ => .parent methods

def frame : Activation → FrameId
  | .block _ frame => frame
  | .routine _ frame => frame
  | .receiver _ _ frame => frame
  | .parent _ _ frame => frame

variable {a : Activation}

theorem eq_routine {d : Declaration} (site : a.site = .routine d) :
    ∃ f frame, a = .routine f frame ∧ f.declaration = d := by
  cases a with
  | routine f frame =>
    cases site
    exact ⟨f, frame, rfl, rfl⟩
  | _ => cases site

theorem eq_receiver {methods : List Declaration} (site : a.site = .receiver methods) :
    ∃ i frame, a = .receiver methods i frame := by
  cases a with
  | receiver _ i frame =>
    cases site
    exact ⟨i, frame, rfl⟩
  | _ => cases site

theorem eq_parent {methods : List Declaration} (site : a.site = .parent methods) :
    ∃ c frame, a = .parent methods c frame := by
  cases a with
  | parent _ c frame =>
    cases site
    exact ⟨c, frame, rfl⟩
  | _ => cases site

end Activation

/-- A program to be run on a first machine, with this much fuel for each of its statements. -/
structure Run where
  fuel : Nat
  program : List Stmt
  first : Machine

/-- The run of a source text. -/
def Run.ofSource (fuel : Nat) (clock : Nat → Float) (source : String) (out : Sink) : Run :=
  let program := (Program.read source).statements
  ⟨fuel, program, .start (resolve program).1 out clock⟩

theorem Run.ofSource_eq {source : String} {statements : List Stmt}
    (read : (Program.read source).statements = statements) (fuel : Nat) (clock : Nat → Float) (out : Sink) :
    Run.ofSource fuel clock source out = ⟨fuel, statements, .start (resolve statements).1 out clock⟩ := by
  rw [Run.ofSource, read]

/-- The moment at which the run comes to one of its statements. -/
inductive Run.Starts (run : Run) : Moment → Prop
  | statement {done s rest m} (here : run.program = done ++ s :: rest)
    (before : interpret run.fuel done run.first = .ok () m) : run.Starts ⟨run.fuel, .execute s, m⟩

/-- The moments of a run. -/
inductive Run.Reaches (run : Run) : Moment → Prop
  | start {moment} (starts : run.Starts moment) : run.Reaches moment
  | enter {outer inner} (before : run.Reaches outer) (enters : Enters outer inner) :
    run.Reaches inner

/-- Whether the part opens a scope for the parts that it enters. -/
def Task.Opens : Task → Prop
  | .execute (.block _) => True
  | .callFunction _ _ => True
  | _ => False

/-- From this moment a method is bound to an instance, in this store. -/
inductive BindsMethod : Moment → Store → Function → Instance → Prop
  | property {fuel m object name i next method} (first : evaluate fuel object m = .ok (.instance_ i) next)
    (absent : next.store.field? i name.lexeme = none)
    (found : i.cls.findMethod? name.lexeme = some method) :
    BindsMethod ⟨fuel + 1, .evaluate (.get object name), m⟩ next.store method i
  | super {fuel m keyword name distance parent i method}
    (located : m.depths[keyword.id]? = some distance)
    (above : m.store.getAt? distance m.current "super" = some (.class_ parent))
    (receiver : m.store.getAt? (distance - 1) m.current "this" = some (.instance_ i))
    (found : parent.findMethod? name.lexeme = some method) :
    BindsMethod ⟨fuel + 1, .evaluate (.super keyword name), m⟩ m.store method i
  | initializer {fuel m c arguments i made method} (fresh : m.store.newInstance c = (i, made))
    (found : c.findMethod? initializerName = some method) :
    BindsMethod ⟨fuel + 1, .invoke (.class_ c) arguments, m⟩ made method i

/-- A class declaration closes its methods over this frame, which is new if there is a superclass. -/
def ClosesMethods (m : Machine) (name : Token) (clause : Option Reference)
    (methods : List Declaration) (parent : Option Class) (frame : FrameId)
    (closed : List (String × Function)) : Prop :=
  ∃ started named framed last, superclass clause m = .ok parent started ∧
    define name .nil started = .ok () named ∧ methodFrame parent named = .ok frame framed ∧
    closeMethods methods { framed with current := frame } = .ok closed last

/-- The scopes around the methods of a class, outside of the one for `this`. -/
def aroundMethods (methods : List Declaration) (frame : FrameId) (parent : Option Class)
    (scopes : List Activation) : List Activation :=
  match parent with
  | none => scopes
  | some c => .parent methods c frame :: scopes

mutual

/-- The scopes that are open at a moment, innermost first. -/
inductive Run.Opened (run : Run) : Moment → List Activation → Prop
  | start {moment} (starts : run.Starts moment) : run.Opened moment []
  | enter {outer inner scopes} (before : run.Opened outer scopes) (enters : Enters outer inner)
    (plain : ¬ outer.task.Opens) : run.Opened inner scopes
  | block {fuel body m inner scopes} (before : run.Opened ⟨fuel, .execute (.block body), m⟩ scopes)
    (enters : Enters ⟨fuel, .execute (.block body), m⟩ inner) :
    run.Opened inner (.block body ⟨m.store.frames.size⟩ :: scopes)
  | routine {fuel f arguments m inner caller scopes}
    (before : run.Opened ⟨fuel, .callFunction f arguments, m⟩ caller)
    (enters : Enters ⟨fuel, .callFunction f arguments, m⟩ inner) (made : run.Made f scopes) :
    run.Opened inner (.routine f ⟨m.store.frames.size⟩ :: scopes)

/-- The scopes that were open around a function where it was made. -/
inductive Run.Made (run : Run) : Function → List Activation → Prop
  | declared {fuel d m scopes} (here : run.Opened ⟨fuel + 1, .execute (.function d), m⟩ scopes) :
    run.Made (m.store.newFunction d m.current false).1 scopes
  | bound {moment caller s method i methods scopes} (here : run.Opened moment caller)
    (binds : BindsMethod moment s method i) (unbound : run.MadeMethod method methods scopes) :
    run.Made (s.bindMethod method i).1 (.receiver methods i ⟨s.frames.size⟩ :: scopes)

/-- The scopes that were open around one of these methods where their class was declared. -/
inductive Run.MadeMethod (run : Run) : Function → List Declaration → List Activation → Prop
  | closed {fuel name clause methods m scopes parent frame all key f}
    (here : run.Opened ⟨fuel + 1, .execute (.class_ name clause methods), m⟩ scopes)
    (closes : ClosesMethods m name clause methods parent frame all) (member : (key, f) ∈ all) :
    run.MadeMethod f methods (aroundMethods methods frame parent scopes)

end

end LoxLang.Eval
