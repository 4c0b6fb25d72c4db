import LoxLang.Proofs.Renaming.Value
import LoxLang.Proofs.Store.Growth

/-! Stores of two runs that are alike up to a renaming. In frames that are twins the same names are bound,
but for the names that marked scopes give them, to values that are alike. A name is looked for along chains
of twins, under the name that the scope at that distance gives it, so it is found in twins or in neither. -/
namespace LoxLang
namespace Comparison
open Renaming

variable (ρ : Comparison)

structure StoresAlike (w : Layout) (s s' : Store) : Prop where
  size : s.frames.size = w.length
  enclosing : ∀ (frame : FrameId) plan, w[frame.index]? = some plan → s.enclosing? frame = plan.enclosing
  enclosing' : ∀ (frame : FrameId) plan twin, w[frame.index]? = some plan → plan.twin = some twin →
    s'.enclosing? twin.frame = twin.enclosing
  made : ∀ frame frame' marked, w.Twins marked frame frame' → frame'.index < s'.frames.size
  apart : ∀ frame other frame' marked marked', w.Twins marked frame frame' →
    w.Twins marked' other frame' → frame = other
  bindings : ∀ frame frame' marked, w.Twins marked frame frame' → ∀ name, name ≠ ρ.new →
    Option.Rel (ρ.ValueAlike w) (s.read? frame name) (s'.read? frame' (ρ.name marked name))
  instances : s'.instances.size = s.instances.size
  fields : ∀ i i' : Instance, i'.id = i.id → ∀ name,
    Option.Rel (ρ.ValueAlike w) (s.field? i name) (s'.field? i' name)
  functions : s'.functions = s.functions
  classes : s'.classes = s.classes

/-- The tables have entries that are alike, under the names that a scope with this mark gives them. -/
def BindingsAlike (w : Layout) (marked : Bool) (t t' : Table Value) : Prop :=
  ∀ name, name ≠ ρ.new → Option.Rel (ρ.ValueAlike w) (t.get? name) (t'.get? (ρ.name marked name))

variable {ρ} {w : Layout} {marked : Bool} {marks : List Bool}

namespace StoresAlike

variable {s s' : Store} {frame frame' : FrameId} {name : String} (alike : ρ.StoresAlike w s s')
include alike

theorem binds (twins : w.Twins marked frame frame') (fresh : name ≠ ρ.new) :
    s'.binds frame' (ρ.name marked name) = s.binds frame name := by
  have read := alike.bindings frame frame' marked twins name fresh
  unfold Store.binds
  generalize s.read? frame name = found at *
  generalize s'.read? frame' (ρ.name marked name) = found' at *
  cases read <;> rfl

/-- The frames at a distance along a chain are twins, and have the mark at that distance. -/
theorem ancestor? (chain : ρ.Chain w frame frame' marks) (d : Nat)
    (stays : ρ.Stays (marks[d]?.getD false)) :
    Option.Rel (w.Twins (marks[d]?.getD false)) (s.ancestor? d frame)
      (s'.ancestor? (ρ.outward marks d) frame') := by
  induction chain generalizing d with
  | @globals frame frame' there =>
    have enclosed : s.enclosing? frame = none := alike.enclosing _ _ there
    have enclosed' : s'.enclosing? frame' = none := alike.enclosing' _ _ _ there rfl
    cases d with
    | zero => exact .some ⟨_, _, there⟩
    | succ d =>
      simp only [outward, Store.ancestor?, enclosed, enclosed', Option.bind_none]
      exact .none
  | @inside frame frame' outer outer' marked marks there kept around ih =>
    have enclosed : s.enclosing? frame = some outer := alike.enclosing _ _ there
    have enclosed' : s'.enclosing? frame' = some outer' := alike.enclosing' _ _ _ there rfl
    cases d with
    | zero => exact .some ⟨_, _, there⟩
    | succ d =>
      simp only [outward_cons kept, Store.ancestor?, enclosed, enclosed', Option.bind_some]
      exact ih d stays
  | @omitted frame outer outer' marks there omits around ih =>
    have enclosed : s.enclosing? frame = some outer := alike.enclosing _ _ there
    cases d with
    | zero => cases stays omits
    | succ d =>
      have skipped : ρ.outward (true :: marks) (d + 1) = ρ.outward marks d := by simp [outward, omits]
      simp only [skipped, Store.ancestor?, enclosed, Option.bind_some]
      exact ih d stays

/-- The name is held by twins at a distance, if it is looked for under the name that the scope at that
distance gives it. -/
theorem holderAt? (chain : ρ.Chain w frame frame' marks) (fresh : name ≠ ρ.new) (d : Nat)
    (stays : ρ.Stays (marks[d]?.getD false)) :
    Option.Rel (w.Twins (marks[d]?.getD false)) (s.holderAt? d frame name)
      (s'.holderAt? (ρ.outward marks d) frame' (ρ.name (marks[d]?.getD false) name)) := by
  have ancestors := alike.ancestor? chain d stays
  unfold Store.holderAt?
  generalize s.ancestor? d frame = found at *
  generalize s'.ancestor? (ρ.outward marks d) frame' = found' at *
  cases ancestors with
  | none => exact .none
  | some twins =>
    simp only [Option.filter, alike.binds twins fresh]
    split
    · exact .some twins
    · exact .none

/-- Nothing encloses the globals. -/
theorem holder? (globals : ρ.Chain w frame frame' []) (fresh : name ≠ ρ.new) :
    Option.Rel (w.Twins false) (s.holder? frame name) (s'.holder? frame' name) := by
  cases globals with
  | globals there =>
    have twins : w.Twins false frame frame' := ⟨_, _, there⟩
    have binds := alike.binds twins fresh
    rw [name_false] at binds
    have enclosed : s.enclosing? frame = none := alike.enclosing _ _ there
    have enclosed' : s'.enclosing? frame' = none := alike.enclosing' _ _ _ there rfl
    simp only [Store.holder?, Store.holderWithin?, binds, enclosed, enclosed', Option.bind_none]
    split
    · exact .some twins
    · exact .none

/-- What twins that hold a name bind it to. -/
theorem held {holder holder' : Option FrameId} (twins : Option.Rel (w.Twins marked) holder holder')
    (fresh : name ≠ ρ.new) : Option.Rel (ρ.ValueAlike w) (holder.bind fun found => s.read? found name)
      (holder'.bind fun found => s'.read? found (ρ.name marked name)) := by
  cases twins with
  | none => exact .none
  | some twins => exact alike.bindings _ _ marked twins name fresh

theorem getAt? (chain : ρ.Chain w frame frame' marks) (fresh : name ≠ ρ.new) (d : Nat)
    (stays : ρ.Stays (marks[d]?.getD false)) :
    Option.Rel (ρ.ValueAlike w) (s.getAt? d frame name)
      (s'.getAt? (ρ.outward marks d) frame' (ρ.name (marks[d]?.getD false) name)) := by
  rw [Store.getAt?_eq, Store.getAt?_eq]
  exact alike.held (alike.holderAt? chain fresh d stays) fresh

theorem get? (globals : ρ.Chain w frame frame' []) (fresh : name ≠ ρ.new) :
    Option.Rel (ρ.ValueAlike w) (s.get? frame name) (s'.get? frame' name) := by
  have read := alike.held (alike.holder? globals fresh) fresh
  rw [name_false] at read
  rwa [Store.get?_eq, Store.get?_eq]

/-- A reserved word is looked for under one name everywhere. -/
theorem getAt?_word (unreserved : ρ.Unreserved) (chain : ρ.Chain w frame frame' marks) (k : Keyword)
    (d : Nat) (stays : ρ.Stays (marks[d]?.getD false)) :
    Option.Rel (ρ.ValueAlike w) (s.getAt? d frame k.spelling)
      (s'.getAt? (ρ.outward marks d) frame' k.spelling) := by
  have read := alike.getAt? chain (unreserved.new k).symm d stays
  rwa [unreserved.name k] at read

theorem define (twins : w.Twins marked frame frame') (fresh : name ≠ ρ.new) {v v' : Value}
    (value : ρ.ValueAlike w v v') :
    ρ.StoresAlike w (s.define frame name v) (s'.define frame' (ρ.name marked name) v') where
  size := by rw [← alike.size]; simp [Store.define]
  enclosing other plan there := by
    rw [Store.enclosing?_define]
    exact alike.enclosing other plan there
  enclosing' other plan twin there made := by
    rw [Store.enclosing?_define]
    exact alike.enclosing' other plan twin there made
  made other other' marked' twins' := by
    simpa [Store.define] using alike.made other other' marked' twins'
  apart := alike.apart
  bindings other other' marked' twins' key fresh' := by
    obtain ⟨_, _, there⟩ := twins'
    have inside : other.index < s.frames.size := by
      rw [alike.size]
      exact (List.getElem?_eq_some_iff.mp there).1
    have twins' : w.Twins marked' other other' := ⟨_, _, there⟩
    have inside' : other'.index < s'.frames.size := alike.made _ _ _ twins'
    -- twins are the frame that is written to in both stores or in neither
    have together : (other' = frame' ∧ ρ.name marked' key = ρ.name marked name ∧
        other'.index < s'.frames.size) ↔ other = frame ∧ key = name ∧ other.index < s.frames.size := by
      constructor
      · rintro ⟨rfl, same, _⟩
        obtain rfl := alike.apart _ _ _ _ _ twins' twins
        exact ⟨rfl, name_inj fresh' fresh same, inside⟩
      · rintro ⟨rfl, rfl, _⟩
        obtain ⟨rfl, rfl⟩ := twins.unique twins'
        exact ⟨rfl, rfl, inside'⟩
    rw [Store.read?_define, Store.read?_define]
    simp only [together]
    split
    · exact .some value
    · exact alike.bindings other other' marked' twins' key fresh'
  instances := alike.instances
  fields := alike.fields
  functions := alike.functions
  classes := alike.classes

/-- Giving a name a new value succeeds in both stores or in neither. -/
theorem overwrite {holder holder' : Option FrameId} (twins : Option.Rel (w.Twins marked) holder holder')
    (fresh : name ≠ ρ.new) {v v' : Value} (value : ρ.ValueAlike w v v') :
    (s'.overwrite holder' (ρ.name marked name) v').1 = (s.overwrite holder name v).1 ∧
      ρ.StoresAlike w (s.overwrite holder name v).2
        (s'.overwrite holder' (ρ.name marked name) v').2 := by
  cases twins with
  | none => exact ⟨rfl, alike⟩
  | some twins => exact ⟨rfl, alike.define twins fresh value⟩

/-- In a layout with one more frame, which has a new frame for its twin or none, the old frames are as
they were. -/
theorem withFrame {plan : FramePlan} {t : Table Value} {after' : Store}
    (size' : s'.frames.size ≤ after'.frames.size)
    (new : ∀ twin ∈ plan.twin, twin.frame.index = s'.frames.size ∧
      s'.frames.size < after'.frames.size ∧ after'.enclosing? twin.frame = twin.enclosing ∧
      ∀ name, name ≠ ρ.new → Option.Rel (ρ.ValueAlike w) (t.get? name)
        (after'.read? twin.frame (ρ.name plan.marked name)))
    (enclosing : ∀ old : FrameId, old.index < s'.frames.size → after'.enclosing? old = s'.enclosing? old)
    (read : ∀ old : FrameId, old.index < s'.frames.size → ∀ name, after'.read? old name = s'.read? old name)
    (instances : after'.instances = s'.instances) (functions : after'.functions = s'.functions)
    (classes : after'.classes = s'.classes) :
    ρ.StoresAlike (w ++ [plan]) (s.newFrame plan.enclosing t).2 after' := by
  have growth : w <+: w ++ [plan] := List.prefix_append _ _
  have weaken {a b : Option Value} (related : Option.Rel (ρ.ValueAlike w) a b) :
      Option.Rel (ρ.ValueAlike (w ++ [plan])) a b :=
    optionRel_mono (fun _ _ value => value.grown growth) related
  have old {frame frame' : FrameId} {marked : Bool} (twins : (w ++ [plan]).Twins marked frame frame') :
      (frame.index = w.length ∧ plan.marked = marked ∧ ∃ twin ∈ plan.twin, twin.frame = frame') ∨
        (frame.index ≠ w.length ∧ w.Twins marked frame frame') := by
    obtain ⟨_, _, there⟩ := twins
    rcases Layout.getElem?_concat there with ⟨last, rfl⟩ | ⟨other, there⟩
    · exact .inl ⟨last, rfl, _, rfl, rfl⟩
    · exact .inr ⟨other, _, _, there⟩
  refine ⟨?_, ?_, ?_, ?_, ?_, ?_, ?_, ?_, ?_, ?_⟩
  · simp [Store.newFrame, alike.size]
  · intro frame plan' there
    rw [Store.enclosing?_newFrame, alike.size]
    rcases Layout.getElem?_concat there with ⟨last, rfl⟩ | ⟨other, there⟩
    · simp [last]
    · simp [other, alike.enclosing frame plan' there]
  · intro frame plan' twin there made
    rcases Layout.getElem?_concat there with ⟨last, rfl⟩ | ⟨other, there⟩
    · exact (new twin made).2.2.1
    · obtain ⟨marked, outer, _⟩ := plan'
      cases made
      rw [enclosing twin.frame (alike.made frame twin.frame marked ⟨_, _, there⟩)]
      exact alike.enclosing' frame _ twin there rfl
  · intro frame frame' marked twins
    rcases old twins with ⟨_, _, twin, made, rfl⟩ | ⟨_, twins⟩
    · have fresh := new twin made
      omega
    · have bound := alike.made _ _ _ twins
      omega
  · intro frame other frame' marked marked' twins twins'
    -- the twin of the new frame is behind the twins of all old ones
    rcases old twins with ⟨last, _, twin, made, same⟩ | ⟨_, before⟩
    · rcases old twins' with ⟨last', _, _⟩ | ⟨_, before'⟩
      · exact congrArg FrameId.mk (last.trans last'.symm)
      · have bound := alike.made _ _ _ before'
        have fresh := (new twin made).1
        rw [same] at fresh
        omega
    · rcases old twins' with ⟨_, _, twin, made, same⟩ | ⟨_, before'⟩
      · have bound := alike.made _ _ _ before
        have fresh := (new twin made).1
        rw [same] at fresh
        omega
      · exact alike.apart _ _ _ _ _ before before'
  · intro frame frame' marked twins name fresh
    rw [Store.read?_newFrame, alike.size]
    rcases old twins with ⟨last, rfl, twin, made, rfl⟩ | ⟨other, before⟩
    · rw [if_pos last]
      exact weaken ((new twin made).2.2.2 name fresh)
    · rw [if_neg other, read frame' (alike.made _ _ _ before)]
      exact weaken (alike.bindings _ _ _ before name fresh)
  · rw [instances]
    exact alike.instances
  · intro i i' same name
    have field : after'.field? i' name = s'.field? i' name := by
      unfold Store.field?
      rw [instances]
    rw [field]
    exact weaken (alike.fields i i' same name)
  · exact functions.trans alike.functions
  · exact classes.trans alike.classes

/-- New frames in both stores are twins. -/
theorem newFrame {enclosing enclosing' : Option FrameId} {t t' : Table Value}
    (bindings : ρ.BindingsAlike w marked t t') :
    ρ.StoresAlike (w ++ [⟨marked, enclosing, some ⟨⟨s'.frames.size⟩, enclosing'⟩⟩])
      (s.newFrame enclosing t).2 (s'.newFrame enclosing' t').2 := by
  have other {old : FrameId} (there : old.index < s'.frames.size) : old.index ≠ s'.frames.size :=
    Nat.ne_of_lt there
  apply alike.withFrame
  · simp [Store.newFrame]
  · rintro _ ⟨⟩
    refine ⟨rfl, by simp [Store.newFrame], by simp [Store.enclosing?_newFrame], fun name fresh => ?_⟩
    rw [Store.read?_newFrame, if_pos rfl]
    exact bindings name fresh
  · intro old there
    rw [Store.enclosing?_newFrame, if_neg (other there)]
  · intro old there name
    rw [Store.read?_newFrame, if_neg (other there)]
  · rfl
  · rfl
  · rfl

/-- A frame that only the first store has. -/
theorem newFrame_omitted {enclosing : Option FrameId} {t : Table Value} :
    ρ.StoresAlike (w ++ [⟨marked, enclosing, none⟩]) (s.newFrame enclosing t).2 s' :=
  alike.withFrame (Nat.le_refl _) nofun (fun _ _ => rfl) (fun _ _ _ => rfl) rfl rfl rfl

/-- A step that leaves the frames and the instances alone. -/
theorem newFunction (d d' : Declaration) (closure closure' : FrameId) (isInitializer : Bool) :
    ρ.StoresAlike w (s.newFunction d closure isInitializer).2
      (s'.newFunction d' closure' isInitializer).2 :=
  { alike with functions := congrArg (· + 1) alike.functions }

theorem newClass (label : String) (parent parent' : Option Class) (methods methods' : Table Function) :
    ρ.StoresAlike w (s.newClass label parent methods).2 (s'.newClass label parent' methods').2 :=
  { alike with classes := congrArg (· + 1) alike.classes }

theorem newInstance (c c' : Class) :
    ρ.StoresAlike w (s.newInstance c).2 (s'.newInstance c').2 :=
  { alike with
    instances := by simp [Store.newInstance, alike.instances]
    fields := fun i i' same name => by
      rw [Store.field?_newInstance, Store.field?_newInstance]
      exact alike.fields i i' same name }

theorem setField {i i' : Instance} (same : i'.id = i.id) (key : String) {v v' : Value}
    (value : ρ.ValueAlike w v v') : ρ.StoresAlike w (s.setField i key v) (s'.setField i' key v') :=
  { alike with
    instances := by simp [Store.setField, alike.instances]
    fields := fun other other' same' name => by
      rw [Store.field?_setField, Store.field?_setField, same, same', alike.instances]
      split
      · exact .some value
      · exact alike.fields other other' same' name }

end StoresAlike

end Comparison
end LoxLang
