import LoxLang.Error.Runtime
import LoxLang.Scope
import LoxLang.Sink
import LoxLang.Store

/-! The machine on which programs run: its state, and the steps that read or change it without
evaluating anything. Every step keeps the state it reached when it fails. A block puts the frame back
that it found, however it ends; the methods of a class are closed in their own frame, and then the frame from
before is put back; a call is counted off again, however it ends. -/
namespace LoxLang

structure Machine where
  globals : FrameId
  current : FrameId
  depths : Depths
  activeCalls : Nat
  store : Store
  output : Sink
  /-- The time in seconds that each reading of the clock finds. -/
  clock : Nat → Float
  clockReadings : Nat

/-- Why evaluation stops before its end. -/
inductive Interruption where
  | fault (e : RuntimeError)
  | sinkFull
  | exhausted

/-- A part of a run. -/
abbrev Eval := EStateM Interruption Machine

namespace Machine

/-- A machine whose globals, in a new frame of the store, are the native functions. -/
def onStore (store : Store) (depths : Depths) (output : Sink) (clock : Nat → Float) : Machine :=
  let (globals, store) := store.newFrame none [("clock", .native .clock)]
  ⟨globals, globals, depths, 0, store, output, clock, 0⟩

def start (depths : Depths) (output : Sink) (clock : Nat → Float) : Machine :=
  onStore .empty depths output clock

end Machine

namespace Eval

/-- The most calls that may be active at once. -/
def maxActiveCalls : Nat := 128

def exhausted {α : Type} : Eval α := throw .exhausted

def fail {α : Type} (cause : RuntimeError.Cause) (line : Nat) : Eval α :=
  throw (.fault ⟨cause, line⟩)

def ofExcept : Except RuntimeError Value → Eval Value
  | .ok v => pure v
  | .error e => throw (.fault e)

def ofOption (found : Option Value) (cause : RuntimeError.Cause) (line : Nat) : Eval Value :=
  match found with
  | some v => pure v
  | none => fail cause line

/-- Changes the store, and gives what the change yields. -/
def onStore {α : Type} (change : Store → α × Store) : Eval α := fun m =>
  let (a, store) := change m.store
  .ok a { m with store }

def currentFrame : Eval FrameId := fun m => .ok m.current m

/-- Makes a frame the current one. -/
def setFrame (frame : FrameId) : Eval Unit := fun m => .ok () { m with current := frame }

/-- A new frame, not yet current. -/
def newFrame (enclosing : FrameId) (bindings : Table Value) : Eval FrameId :=
  onStore fun s => s.newFrame (some enclosing) bindings

/-- Runs a part with `frame` as the current frame. -/
def inFrame {α : Type} (frame : FrameId) (part : Eval α) : Eval α := fun m =>
  let outer := m.current
  match part { m with current := frame } with
  | .ok a m => .ok a { m with current := outer }
  | .error e m => .error e { m with current := outer }

/-- Runs a part as one more active call, and one less when it has ended. -/
def inCall {α : Type} (part : Eval α) : Eval α := fun m =>
  match part { m with activeCalls := m.activeCalls + 1 } with
  | .ok a m => .ok a { m with activeCalls := m.activeCalls - 1 }
  | .error e m => .error e { m with activeCalls := m.activeCalls - 1 }

/-- The value of a reference: in the frame at its recorded distance, or else among the globals. -/
def lookUp (r : Reference) : Eval Value := fun m =>
  let found := match m.depths[r.id]? with
    | some distance => m.store.getAt? distance m.current r.name.lexeme
    | none => m.store.get? m.globals r.name.lexeme
  ofOption found (.undefinedVariable r.name.lexeme) r.name.line m

/-- Overwrites a binding; a name without one is undefined. -/
def overwrite (name : Token) (write : Store → Bool × Store) : Eval Unit := do
  if ← onStore write then return ()
  else fail (.undefinedVariable name.lexeme) name.line

/-- Gives the binding that a reference means a new value. -/
def assign (r : Reference) (v : Value) : Eval Unit := do
  let m ← get
  let current := m.current
  let globals := m.globals
  match m.depths[r.id]? with
  | some distance => overwrite r.name fun s => s.assignAt distance current r.name.lexeme v
  | none => overwrite r.name fun s => s.assign globals r.name.lexeme v

/-- Gives a name a value in the current frame. -/
def define (name : Token) (v : Value) : Eval Unit := fun m =>
  .ok () { m with store := m.store.define m.current name.lexeme v }

/-- Gives the nearest binding of a name from the current frame outward a new value. -/
def assignNearest (name : Token) (v : Value) : Eval Unit := do
  let frame ← currentFrame
  overwrite name fun s => s.assign frame name.lexeme v

/-- Writes a value and a line feed to the output. -/
def print (v : Value) : Eval Unit := fun m =>
  let (whole, output) := m.output.write (v.display ++ "\n")
  let m := { m with output }
  if whole then .ok () m else .error .sinkFull m

def readClock : Eval Value := fun m =>
  .ok (.number (m.clock m.clockReadings)) { m with clockReadings := m.clockReadings + 1 }

/-- A field of an instance or, failing that, a method of its class bound to it. -/
def property (i : Instance) (name : Token) : Eval Value := do
  let m ← get
  match m.store.field? i name.lexeme, i.cls.findMethod? name.lexeme with
  | some v, _ => return v
  | none, some method => return .function (← onStore fun s => s.bindMethod method i)
  | none, none => fail (.undefinedProperty name.lexeme) name.line

def setProperty (i : Instance) (name : Token) (v : Value) : Eval Unit := fun m =>
  .ok () { m with store := m.store.setField i name.lexeme v }

/-- A method of the superclass bound to `this`. The frame that binds `this` is the one just inside
the frame that binds `super`. -/
def superMethod (keyword : Reference) (method : Token) : Eval Value := do
  let m ← get
  let line := keyword.name.line
  match m.depths[keyword.id]? with
  | none => fail .unresolvedSuper line
  | some distance =>
    let parent ← ofOption (m.store.getAt? distance m.current "super")
      (.undefinedVariable "super") line
    let object ← ofOption (m.store.getAt? (distance - 1) m.current "this")
      (.undefinedVariable "this") line
    match parent, object with
    | .class_ c, .instance_ i =>
      match c.findMethod? method.lexeme with
      | some found => return .function (← onStore fun s => s.bindMethod found i)
      | none => fail (.undefinedProperty method.lexeme) method.line
    | _, _ => fail .invalidSuperBinding line

/-- The class that a superclass clause names. -/
def superclass : Option Reference → Eval (Option Class)
  | none => return none
  | some r => do
    match ← lookUp r with
    | .class_ c => return some c
    | _ => fail .superclassNotClass r.name.line

/-- The frame that the methods of a class are closed over: in a class with a superclass, a frame of
its own that binds `super`. -/
def methodFrame : Option Class → Eval FrameId
  | none => currentFrame
  | some parent => do newFrame (← currentFrame) [("super", .class_ parent)]

/-- Functions made of methods, closed over the current frame. -/
def closeMethods : List Declaration → Eval (List (String × Function))
  | [] => return []
  | d :: rest => do
    let name := d.name.lexeme
    let closure ← currentFrame
    let f ← onStore fun s => s.newFunction d closure (name = initializerName)
    return (name, f) :: (← closeMethods rest)

/-- A class whose methods are closed over the current frame. -/
def closeClass (name : String) (parent : Option Class) (methods : List Declaration) : Eval Class := do
  let closed ← closeMethods methods
  onStore fun s => s.newClass name parent (.ofList closed)

/-- A class whose methods are closed over their own frame. That frame is the current one while the class
is made; then the frame from before is put back. -/
def makeClass (name : String) (parent : Option Class) (methods : List Declaration) : Eval Class := do
  let previous ← currentFrame
  setFrame (← methodFrame parent)
  let c ← closeClass name parent methods
  setFrame previous
  return c

/-- Declares a function in the current frame, closed over that frame. -/
def defineFunction (d : Declaration) : Eval Unit := do
  let closure ← currentFrame
  let f ← onStore fun s => s.newFunction d closure false
  define d.name (.function f)

/-- Declares a class in the current frame. Its name is bound before its methods are closed, so that
they can refer to it. -/
def defineClass (name : Token) (clause : Option Reference) (methods : List Declaration) :
    Eval Unit := do
  let parent ← superclass clause
  define name .nil
  let c ← makeClass name.lexeme parent methods
  assignNearest name (.class_ c)

end Eval
end LoxLang
