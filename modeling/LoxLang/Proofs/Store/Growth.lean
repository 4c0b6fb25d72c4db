import LoxLang.Proofs.Evaluation.Restoration

/-! How the store grows. Frames are made but never taken away, a frame stays enclosed by the frame it
was made in, and a name that it binds stays bound. So a chain of frames that a closure captured is
still there whenever the closure is called. What is bound to a reserved word, as the instance and the
superclass of a method are, stays the same as long as only names are written that are none. -/
namespace LoxLang
namespace Store

theorem read?_newFrame (s : Store) (enclosing : Option FrameId) (bindings : Table Value)
    (frame : FrameId) (name : String) :
    (s.newFrame enclosing bindings).2.read? frame name =
      if frame.index = s.frames.size then bindings.get? name else s.read? frame name := by
  simp only [read?, newFrame, Array.getElem?_push]
  split <;> simp

theorem enclosing?_newFrame (s : Store) (enclosing : Option FrameId) (bindings : Table Value)
    (frame : FrameId) :
    (s.newFrame enclosing bindings).2.enclosing? frame =
      if frame.index = s.frames.size then enclosing else s.enclosing? frame := by
  simp only [enclosing?, newFrame, Array.getElem?_push]
  split <;> simp

theorem read?_define (s : Store) (holder : FrameId) (key : String) (v : Value) (frame : FrameId)
    (name : String) :
    (s.define holder key v).read? frame name =
      if frame = holder ∧ name = key ∧ frame.index < s.frames.size then some v
      else s.read? frame name := by
  obtain ⟨index⟩ := frame
  obtain ⟨index'⟩ := holder
  by_cases same : index = index'
  · subst same
    by_cases there : index < s.frames.size
    · by_cases named : name = key
      · simp [read?, define, Array.getElem_modify, there, Table.get?_set, named]
      · simp [read?, define, Array.getElem_modify, there, Table.get?_set, named]
    · simp [read?, define, there]
  · simp [read?, define, Array.getElem?_modify, same, Ne.symm same]

theorem enclosing?_define (s : Store) (holder : FrameId) (key : String) (v : Value)
    (frame : FrameId) : (s.define holder key v).enclosing? frame = s.enclosing? frame := by
  simp only [enclosing?, define, Array.getElem?_modify]
  split
  · cases s.frames[frame.index]? <;> rfl
  · rfl

theorem field?_setField (s : Store) (i : Instance) (key : String) (v : Value) (other : Instance)
    (name : String) :
    (s.setField i key v).field? other name =
      if other.id = i.id ∧ name = key ∧ other.id.index < s.instances.size then some v
      else s.field? other name := by
  obtain ⟨⟨index⟩, _⟩ := other
  obtain ⟨⟨index'⟩, _⟩ := i
  by_cases same : index = index'
  · subst same
    by_cases there : index < s.instances.size
    · by_cases named : name = key
      · simp [field?, setField, Array.getElem_modify, there, Table.get?_set, named]
      · simp [field?, setField, Array.getElem_modify, there, Table.get?_set, named]
    · simp [field?, setField, there]
  · simp [field?, setField, Array.getElem?_modify, same, Ne.symm same]

theorem field?_newInstance (s : Store) (c : Class) (i : Instance) (name : String) :
    (s.newInstance c).2.field? i name = s.field? i name := by
  by_cases last : i.id.index = s.instances.size
  · simp [field?, newInstance, last, Table.get?]
  · simp [field?, newInstance, Array.getElem?_push, last]

/-- A frame that is enclosed, or binds a name, is in the store. -/
theorem enclosing?_some_lt {s : Store} {frame outer : FrameId} (enclosed : s.enclosing? frame = some outer) :
    frame.index < s.frames.size := by
  unfold enclosing? at enclosed
  by_cases there : frame.index < s.frames.size
  · exact there
  · simp [there] at enclosed

theorem read?_some_lt {s : Store} {frame : FrameId} {name : String} {v : Value}
    (found : s.read? frame name = some v) : frame.index < s.frames.size := by
  unfold read? at found
  by_cases there : frame.index < s.frames.size
  · exact there
  · simp [there] at found

/-- Every frame of the store is in the later one, as far from the globals as before, and binds at
least the names it bound. -/
structure Grown (s after : Store) : Prop where
  size : s.frames.size ≤ after.frames.size
  enclosing : ∀ frame : FrameId, frame.index < s.frames.size →
    after.enclosing? frame = s.enclosing? frame
  binds : ∀ frame name, s.binds frame name → after.binds frame name

namespace Grown

variable {s middle after : Store}

theorem refl (s : Store) : Grown s s := ⟨Nat.le_refl _, fun _ _ => rfl, fun _ _ bound => bound⟩

theorem trans (first : Grown s middle) (second : Grown middle after) : Grown s after where
  size := Nat.le_trans first.size second.size
  enclosing frame there := by
    rw [second.enclosing frame (Nat.lt_of_lt_of_le there first.size), first.enclosing frame there]
  binds frame name bound := second.binds frame name (first.binds frame name bound)

/-- A step that leaves the frames alone. -/
theorem of_frames (same : after.frames = s.frames) : Grown s after where
  size := Nat.le_of_eq (by rw [same])
  enclosing frame _ := by simp only [enclosing?, same]
  binds frame name bound := by simpa only [Store.binds, read?, same] using bound

theorem newFrame (s : Store) (enclosing : Option FrameId) (bindings : Table Value) :
    Grown s (s.newFrame enclosing bindings).2 where
  size := by simp [Store.newFrame]
  enclosing frame there := by
    rw [enclosing?_newFrame, if_neg (Nat.ne_of_lt there)]
  binds frame name bound := by
    obtain ⟨v, found⟩ := Option.isSome_iff_exists.mp bound
    rw [Store.binds, read?_newFrame, if_neg (Nat.ne_of_lt (read?_some_lt found))]
    exact bound

theorem define (s : Store) (frame : FrameId) (name : String) (v : Value) :
    Grown s (s.define frame name v) where
  size := by simp [Store.define]
  enclosing other _ := enclosing?_define s frame name v other
  binds other key bound := by
    rw [Store.binds, read?_define]
    split
    · rfl
    · exact bound

end Grown

/-- A grown store in which reserved words have the values they had. No instance is taken away either. -/
structure Kept (s after : Store) : Prop extends Grown s after where
  words : ∀ frame (k : Keyword) v, s.read? frame k.spelling = some v →
    after.read? frame k.spelling = some v
  instances : s.instances.size ≤ after.instances.size

namespace Kept

variable {s middle after : Store}

theorem refl (s : Store) : Kept s s := ⟨.refl s, fun _ _ _ found => found, Nat.le_refl _⟩

theorem trans (first : Kept s middle) (second : Kept middle after) : Kept s after where
  toGrown := first.toGrown.trans second.toGrown
  words frame k v found := second.words frame k v (first.words frame k v found)
  instances := Nat.le_trans first.instances second.instances

/-- A step that leaves the frames alone. -/
theorem of_frames (same : after.frames = s.frames) (instances : s.instances.size ≤ after.instances.size) :
    Kept s after where
  toGrown := .of_frames same
  words frame k v found := by simpa only [read?, same] using found
  instances := instances

theorem newFrame (s : Store) (enclosing : Option FrameId) (bindings : Table Value) :
    Kept s (s.newFrame enclosing bindings).2 where
  toGrown := .newFrame s enclosing bindings
  words frame k v found := by
    rw [read?_newFrame, if_neg (Nat.ne_of_lt (read?_some_lt found))]
    exact found
  instances := Nat.le_refl _

/-- A value is given to a name that is no reserved word. -/
theorem define (s : Store) (frame : FrameId) {name : String} (free : ∀ k : Keyword, name ≠ k.spelling)
    (v : Value) : Kept s (s.define frame name v) where
  toGrown := .define s frame name v
  words other k w found := by
    rw [read?_define, if_neg fun hit => free k hit.2.1.symm]
    exact found
  instances := Nat.le_refl _

theorem overwrite (s : Store) (holder : Option FrameId) {name : String}
    (free : ∀ k : Keyword, name ≠ k.spelling) (v : Value) : Kept s (s.overwrite holder name v).2 := by
  cases holder with
  | none => exact refl s
  | some frame => exact define s frame free v

theorem setField (s : Store) (i : Instance) (name : String) (v : Value) : Kept s (s.setField i name v) :=
  .of_frames rfl (by simp [Store.setField])

theorem newInstance (s : Store) (c : Class) : Kept s (s.newInstance c).2 :=
  .of_frames rfl (by simp [Store.newInstance])

end Kept

/-- The only name that a definition can add is its own. -/
theorem binds_of_define {s : Store} {holder frame : FrameId} {key name : String} {v : Value}
    (bound : (s.define holder key v).binds frame name) :
    s.binds frame name ∨ (frame = holder ∧ name = key) := by
  rw [binds, read?_define] at bound
  split at bound
  · next hit => exact .inr ⟨hit.1, hit.2.1⟩
  · exact .inl bound

/-- A name is bound once it is given a value in a frame that is there. -/
theorem binds_define {s : Store} {frame : FrameId} (there : frame.index < s.frames.size)
    (name : String) (v : Value) : (s.define frame name v).binds frame name := by
  simp [binds, read?_define, there]

end Store

namespace Eval

/-- The store of the machine has grown. -/
def Growing (m after : Machine) : Prop := m.store.Grown after.store

theorem growing_steady : Steady Growing where
  refl m := .refl m.store
  trans first second := Store.Grown.trans first second
  newFrame m enclosing bindings := .newFrame m.store (some enclosing) bindings
  define m frame name v := .define m.store frame name v
  newFunction _ _ _ _ := .of_frames rfl
  newClass _ _ _ _ := .of_frames rfl
  newInstance _ _ := .of_frames rfl
  setField _ _ _ _ := .of_frames rfl
  write _ _ := .of_frames rfl
  readClock _ := .of_frames rfl
  inFrame _ _ _ inner := inner
  inCall _ _ inner := inner

end Eval
end LoxLang
