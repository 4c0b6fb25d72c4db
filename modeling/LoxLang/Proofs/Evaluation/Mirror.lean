import LoxLang.Proofs.Evaluation.Named
import LoxLang.Proofs.Scope.Recording
import LoxLang.Proofs.Store.Growth

/-! Frames that mirror lexical scopes. The frames from the current one outward are those of the scopes
that are open, they stand for the levels around the code that runs, and each of them binds the names
that are ready in its level; that for `this` binds it to the instance and that for `super` to the
superclass. What a closure captured mirrors the levels around its declaration, and goes on doing so,
since frames only grow and keep what reserved words are bound to. -/
namespace LoxLang.Eval
open Scope

/-- The frame binds the reserved word that it was made for. -/
def Activation.Holds (s : Store) : Activation → Prop
  | .block _ _ | .routine _ _ => True
  | .receiver _ i frame => s.read? frame "this" = some (.instance_ i)
  | .parent _ c frame => s.read? frame "super" = some (.class_ c)

theorem Activation.Holds.kept {a : Activation} {s after : Store} (holds : a.Holds s)
    (kept : s.Kept after) : a.Holds after := by
  cases a with
  | block | routine => trivial
  | receiver methods i frame => exact kept.words frame .this_ _ holds
  | parent methods c frame => exact kept.words frame .super_ _ holds

/-- From this frame outward the frames are those of the open scopes, one for each level, up to the
globals. -/
inductive Mirrored (globals : FrameId) (s : Store) : List Level → List Activation → FrameId → Prop
  | top (there : globals.index < s.frames.size) : Mirrored globals s [] [] globals
  | inside {level levels activation scopes frame outer} (here : activation.frame = frame)
    (site : activation.site = level.site) (holds : activation.Holds s)
    (bound : ∀ name, level.names.get? name = some true → s.binds frame name)
    (enclosed : s.enclosing? frame = some outer) (around : Mirrored globals s levels scopes outer) :
    Mirrored globals s (level :: levels) (activation :: scopes) frame

namespace Mirrored

variable {globals frame : FrameId} {s after : Store} {levels : List Level} {scopes : List Activation}

theorem there (mirrored : Mirrored globals s levels scopes frame) : frame.index < s.frames.size := by
  cases mirrored with
  | top there => exact there
  | inside _ _ _ _ enclosed _ => exact Store.enclosing?_some_lt enclosed

theorem grown (mirrored : Mirrored globals s levels scopes frame) (kept : s.Kept after) :
    Mirrored globals after levels scopes frame := by
  induction mirrored with
  | top there => exact .top (Nat.lt_of_lt_of_le there kept.size)
  | inside here site holds bound enclosed around ih =>
    refine .inside here site (holds.kept kept) (fun name ready => kept.binds _ _ (bound name ready)) ?_ ih
    rw [kept.enclosing _ (Store.enclosing?_some_lt enclosed)]
    exact enclosed

/-- A name that is bound may be marked as ready, and any name as not ready. -/
theorem markIn (mirrored : Mirrored globals s levels scopes frame) {name : String} {ready : Bool}
    (bound : ready = true → s.binds frame name) :
    Mirrored globals s (markIn name ready levels) scopes frame := by
  cases mirrored with
  | top there => exact .top there
  | inside here site holds before enclosed around =>
    refine .inside here site holds ?_ enclosed around
    intro other found
    rw [Table.get?_set] at found
    split at found
    · next same => exact same ▸ bound (Option.some.inj found)
    · exact before other found

theorem behind (mirrored : Mirrored globals s levels scopes frame) {s' : Stmt}
    (bound : ∀ t, s'.declared? = some t → s.binds frame t.lexeme) :
    Mirrored globals s (behind s' levels) scopes frame := by
  unfold Scope.behind
  split
  · exact mirrored
  · next declared => exact mirrored.markIn fun _ => bound _ declared

/-- A new frame that binds only one word, for which it was made, stands for one more level. -/
theorem word (mirrored : Mirrored globals s levels scopes frame) {word : String} {v : Value}
    {a : Activation} (here : a.frame = ⟨s.frames.size⟩)
    (holds : (s.newFrame (some frame) [(word, v)]).2.read? ⟨s.frames.size⟩ word = some v →
      a.Holds (s.newFrame (some frame) [(word, v)]).2) :
    Mirrored globals (s.newFrame (some frame) [(word, v)]).2 (⟨a.site, [(word, true)]⟩ :: levels)
      (a :: scopes) ⟨s.frames.size⟩ := by
  have found : (s.newFrame (some frame) [(word, v)]).2.read? ⟨s.frames.size⟩ word = some v := by
    simp [Store.read?_newFrame, Table.get?]
  refine .inside here rfl (holds found) ?_ ?_ (mirrored.grown (.newFrame s (some frame) _))
  · intro name ready
    simp only [Table.get?] at ready
    split at ready
    · next same =>
      rw [same]
      exact Option.isSome_of_eq_some found
    · cases ready
  · simp [Store.enclosing?_newFrame]

theorem sites (mirrored : Mirrored globals s levels scopes frame) :
    scopes.map Activation.site = levels.map Level.site := by
  induction mirrored with
  | top => rfl
  | inside _ site _ _ _ _ ih => rw [List.map_cons, List.map_cons, site, ih]

theorem active (mirrored : Mirrored globals s levels scopes frame) {d : Nat} {site : Site}
    (there : levels[d]?.map Level.site = some site) : ∃ a, scopes[d]? = some a ∧ a.site = site := by
  rw [← List.getElem?_map, ← mirrored.sites, List.getElem?_map] at there
  exact Option.map_eq_some_iff.mp there

/-- The frame at the distance of a level is that of the scope open there, and it binds what is ready
in the level. -/
theorem located (mirrored : Mirrored globals s levels scopes frame) {d : Nat} {level : Level}
    (there : levels[d]? = some level) :
    ∃ activation, scopes[d]? = some activation ∧ activation.site = level.site ∧
      s.ancestor? d frame = some activation.frame ∧
      ∀ name, level.names.get? name = some true → s.binds activation.frame name := by
  induction mirrored generalizing d with
  | top => cases there
  | @inside level' levels activation scopes frame outer here site holds bound enclosed around ih =>
    cases d with
    | zero =>
      cases there
      exact ⟨activation, rfl, site, here ▸ rfl, here ▸ bound⟩
    | succ d =>
      obtain ⟨found, same, sited, ancestor, binds⟩ := ih there
      refine ⟨found, same, sited, ?_, binds⟩
      rw [Store.ancestor?, enclosed]
      exact ancestor

/-- Every scope that is open holds the reserved word that its frame was made for. -/
theorem holds (mirrored : Mirrored globals s levels scopes frame) : ∀ a ∈ scopes, a.Holds s := by
  induction mirrored with
  | top => exact nofun
  | inside _ _ holds _ _ _ ih => exact List.forall_mem_cons.mpr ⟨holds, ih⟩

end Mirrored

namespace Run

variable (run : Run) (s : Store)

/-- The function was made inside levels of the program that its closure mirrors. -/
def FunctionSound (f : Function) : Prop :=
  ∃ levels scopes, run.Made f scopes ∧ Mirrored run.first.globals s levels scopes f.closure ∧
    declarationOccurrences levels f.declaration ⊆ occurrences run.program

/-- So was the method, except for the scope of `this`, which it is not yet inside. -/
def MethodSound (f : Function) : Prop :=
  ∃ methods levels scopes, run.MadeMethod f methods scopes ∧
    Mirrored run.first.globals s levels scopes f.closure ∧
    declarationOccurrences (⟨.receiver methods, [("this", true)]⟩ :: levels) f.declaration ⊆
      occurrences run.program

/-- What is found by a name in the class is a sound method of that name. -/
def ClassSound (c : Class) : Prop :=
  ∀ name f, c.findMethod? name = some f → f.name = name ∧ run.MethodSound s f

/-- The instance is in the store, and its class is sound. -/
def InstanceSound (i : Instance) : Prop := i.id.index < s.instances.size ∧ run.ClassSound s i.cls

def ValueSound : Value → Prop
  | .function f => run.FunctionSound s f
  | .class_ c => run.ClassSound s c
  | .instance_ i => run.InstanceSound s i
  | _ => True

def CallableSound : Callable → Prop
  | .native _ => True
  | .function f => run.FunctionSound s f
  | .class_ c => run.ClassSound s c

def CompletionSound : Completion → Prop
  | .normal => True
  | .returned v => run.ValueSound s v

/-- Every value in a frame or a field is sound. -/
structure StoreSound : Prop where
  bound : ∀ frame name v, s.read? frame name = some v → run.ValueSound s v
  fields : ∀ i name v, s.field? i name = some v → run.ValueSound s v

variable {run s} {after : Store} (growth : s.Kept after)
include growth

theorem FunctionSound.grown {f : Function} (sound : run.FunctionSound s f) :
    run.FunctionSound after f := by
  obtain ⟨levels, scopes, made, mirrored, included⟩ := sound
  exact ⟨levels, scopes, made, mirrored.grown growth, included⟩

theorem MethodSound.grown {f : Function} (sound : run.MethodSound s f) : run.MethodSound after f := by
  obtain ⟨methods, levels, scopes, made, mirrored, included⟩ := sound
  exact ⟨methods, levels, scopes, made, mirrored.grown growth, included⟩

theorem ClassSound.grown {c : Class} (sound : run.ClassSound s c) : run.ClassSound after c :=
  fun name f found => (sound name f found).imp_right (MethodSound.grown growth)

theorem InstanceSound.grown {i : Instance} (sound : run.InstanceSound s i) : run.InstanceSound after i :=
  ⟨Nat.lt_of_lt_of_le sound.1 growth.instances, ClassSound.grown growth sound.2⟩

theorem ValueSound.grown {v : Value} (sound : run.ValueSound s v) : run.ValueSound after v := by
  cases v with
  | function f => exact FunctionSound.grown growth sound
  | class_ c => exact ClassSound.grown growth sound
  | instance_ i => exact InstanceSound.grown growth sound
  | _ => trivial

omit growth in
/-- An instance that has been made is in the store. -/
theorem ClassSound.made {c : Class} (sound : run.ClassSound s c) :
    run.InstanceSound (s.newInstance c).2 (s.newInstance c).1 :=
  ⟨by simp [Store.newInstance], ClassSound.grown (.newInstance s c) sound⟩

/-- A grown store whose values are old ones or sound ones is sound. -/
theorem StoreSound.grown (sound : run.StoreSound s)
    (bound : ∀ frame name v, after.read? frame name = some v →
      s.read? frame name = some v ∨ run.ValueSound after v)
    (fields : ∀ i name v, after.field? i name = some v →
      s.field? i name = some v ∨ run.ValueSound after v) : run.StoreSound after where
  bound frame name v found := by
    rcases bound frame name v found with old | new
    · exact (sound.bound frame name v old).grown growth
    · exact new
  fields i name v found := by
    rcases fields i name v found with old | new
    · exact (sound.fields i name v old).grown growth
    · exact new

end Run

end LoxLang.Eval
