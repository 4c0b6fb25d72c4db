import LoxLang.Value

/-! The store: frames of variables and fields of instances.
A frame is enclosed by at most one frame, which is older, so a chain of frames is never longer than
the number of its first frame. A name is read and written either in the first frame of a chain that
binds it, or in the frame at a given distance along the chain, whatever the frames before it bind. A
name that no such frame binds has no value, and cannot be given one. -/
namespace LoxLang

structure Frame where
  bindings : Table Value
  enclosing : Option FrameId

structure Store where
  frames : Array Frame
  /-- The fields of each instance. -/
  instances : Array (Table Value)
  /-- How many functions and classes have been made. -/
  functions : Nat
  classes : Nat

namespace Store

def empty : Store := ⟨#[], #[], 0, 0⟩

def newFrame (s : Store) (enclosing : Option FrameId) (bindings : Table Value) : FrameId × Store :=
  (⟨s.frames.size⟩, { s with frames := s.frames.push ⟨bindings, enclosing⟩ })

/-- The value of a name in one frame. -/
def read? (s : Store) (frame : FrameId) (name : String) : Option Value :=
  s.frames[frame.index]?.bind (·.bindings.get? name)

def binds (s : Store) (frame : FrameId) (name : String) : Bool := (s.read? frame name).isSome

/-- Gives a name a value in one frame. -/
def define (s : Store) (frame : FrameId) (name : String) (v : Value) : Store :=
  { s with
    frames := s.frames.modify frame.index fun f => { f with bindings := f.bindings.set name v } }

def enclosing? (s : Store) (frame : FrameId) : Option FrameId :=
  s.frames[frame.index]?.bind (·.enclosing)

/-- The value of a name in the first frame that binds it, among the first `fuel` of a chain. -/
def getWithin? (s : Store) (name : String) : Nat → FrameId → Option Value
  | 0, _ => none
  | fuel + 1, frame =>
    match s.read? frame name with
    | some v => some v
    | none => (s.enclosing? frame).bind (s.getWithin? name fuel)

/-- The value of a name in the first frame of a chain that binds it. -/
def get? (s : Store) (frame : FrameId) (name : String) : Option Value :=
  s.getWithin? name (frame.index + 1) frame

/-- The value of a name in the frame at a distance along a chain. -/
def getAt? (s : Store) : Nat → FrameId → String → Option Value
  | 0, frame, name => s.read? frame name
  | distance + 1, frame, name =>
    (s.enclosing? frame).bind fun outer => s.getAt? distance outer name

/-- Gives a name a new value in the first frame that binds it, among the first `fuel` of a chain, and
says whether there is one. -/
def assignWithin (s : Store) (name : String) (v : Value) : Nat → FrameId → Bool × Store
  | 0, _ => (false, s)
  | fuel + 1, frame =>
    if s.binds frame name then (true, s.define frame name v)
    else
      match s.enclosing? frame with
      | some outer => s.assignWithin name v fuel outer
      | none => (false, s)

/-- Gives a name a new value in the first frame of a chain that binds it. -/
def assign (s : Store) (frame : FrameId) (name : String) (v : Value) : Bool × Store :=
  s.assignWithin name v (frame.index + 1) frame

/-- Gives a name a new value in the frame at a distance along a chain, if that frame binds it. -/
def assignAt (s : Store) : Nat → FrameId → String → Value → Bool × Store
  | 0, frame, name, v =>
    if s.binds frame name then (true, s.define frame name v) else (false, s)
  | distance + 1, frame, name, v =>
    match s.enclosing? frame with
    | some outer => s.assignAt distance outer name v
    | none => (false, s)

def newFunction (s : Store) (declaration : Declaration) (closure : FrameId)
    (isInitializer : Bool) : Function × Store :=
  (⟨⟨s.functions⟩, declaration, closure, isInitializer⟩, { s with functions := s.functions + 1 })

def newClass (s : Store) (name : String) (superclass : Option Class) (methods : Table Function) :
    Class × Store :=
  (⟨⟨s.classes⟩, name, superclass, methods⟩, { s with classes := s.classes + 1 })

def newInstance (s : Store) (cls : Class) : Instance × Store :=
  (⟨⟨s.instances.size⟩, cls⟩, { s with instances := s.instances.push [] })

def field? (s : Store) (i : Instance) (name : String) : Option Value :=
  s.instances[i.id.index]?.bind (·.get? name)

def setField (s : Store) (i : Instance) (name : String) (v : Value) : Store :=
  { s with instances := s.instances.modify i.id.index (·.set name v) }

/-- A method closed over a frame of its own in which `this` is the instance. -/
def bindMethod (s : Store) (method : Function) (i : Instance) : Function × Store :=
  let (frame, s) := s.newFrame (some method.closure) [("this", .instance_ i)]
  s.newFunction method.declaration frame method.isInitializer

end Store
end LoxLang
