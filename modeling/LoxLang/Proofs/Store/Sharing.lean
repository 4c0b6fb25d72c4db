import Mathlib.Logic.Relation
import LoxLang.Proofs.Evaluation.Within
import LoxLang.Proofs.Store.Growth

/-! Frames that several chains share. A frame is made inside a frame that is there, so every chain goes
to older frames and ends. A name is looked for in the first frame of a chain that binds it, or in the
frame at a distance and in no other; either way it is read and written in the same place, though each
way of reading and of writing goes along the chain by itself. So a write is
seen by the reads that come to the binding it changes, from whatever frame, and by no others. -/
namespace LoxLang
namespace Store

/-- The stores that are built by making frames, inside none or inside one that is there, and by giving
names values. -/
inductive Built : Store → Prop
  | empty : Built .empty
  | outermost {s : Store} (built : Built s) (bindings : Table Value) :
    Built (s.newFrame none bindings).2
  | enclosed {s : Store} (built : Built s) {outer : FrameId} (there : outer.index < s.frames.size)
    (bindings : Table Value) : Built (s.newFrame (some outer) bindings).2
  | define {s : Store} (built : Built s) (frame : FrameId) (name : String) (v : Value) :
    Built (s.define frame name v)
  | assign {s : Store} (built : Built s) (frame : FrameId) (name : String) (v : Value) :
    Built (s.assign frame name v).2
  | assignAt {s : Store} (built : Built s) (distance : Nat) (frame : FrameId) (name : String)
    (v : Value) : Built (s.assignAt distance frame name v).2

/-- The holder is the first frame of the chain that binds the name, at this distance. -/
def FirstAt (s : Store) (name : String) (distance : Nat) (frame holder : FrameId) : Prop :=
  s.ancestor? distance frame = some holder ∧ s.binds holder name ∧
    ∀ nearer < distance, ∀ passed, s.ancestor? nearer frame = some passed → ¬ s.binds passed name

/-- The two ways to look for a name along a chain of frames. -/
inductive Lookup where
  | nearest
  | distant (distance : Nat)

namespace Lookup

def read (s : Store) : Lookup → FrameId → String → Option Value
  | .nearest => s.get?
  | .distant distance => s.getAt? distance

def write (s : Store) : Lookup → FrameId → String → Value → Bool × Store
  | .nearest => s.assign
  | .distant distance => s.assignAt distance

/-- The frame in which the name is found. -/
def holder? (s : Store) : Lookup → FrameId → String → Option FrameId
  | .nearest => s.holder?
  | .distant distance => s.holderAt? distance

/-- The lookup comes to the binding of the name in this frame: it is the first frame of the chain that
binds the name, or the frame at the distance, whatever the frames before it bind. -/
def ComesTo (s : Store) : Lookup → FrameId → String → FrameId → Prop
  | .nearest, frame, name, holder => ∃ distance, s.FirstAt name distance frame holder
  | .distant distance, frame, name, holder =>
      s.ancestor? distance frame = some holder ∧ s.binds holder name

end Lookup

/-- All that a write has changed is the value of one name in one frame. -/
structure Rebound (s : Store) (holder : FrameId) (name : String) (v : Value) (after : Store) :
    Prop where
  binding : ∀ frame other,
    after.read? frame other = if frame = holder ∧ other = name then some v else s.read? frame other
  enclosing : ∀ frame, after.enclosing? frame = s.enclosing? frame
  size : after.frames.size = s.frames.size
  instances : after.instances = s.instances
  functions : after.functions = s.functions
  classes : after.classes = s.classes

section Chains

variable {s after : Store} {frame outer holder : FrameId} {name : String}

/-- A frame is older than the frames that it encloses. -/
def Ordered (s : Store) : Prop :=
  ∀ frame outer, s.enclosing? frame = some outer → outer.index < frame.index

theorem Ordered.newFrame (ordered : s.Ordered) {enclosing : Option FrameId}
    (there : ∀ outer, enclosing = some outer → outer.index < s.frames.size) (bindings : Table Value) :
    (s.newFrame enclosing bindings).2.Ordered := by
  intro frame outer enclosed
  rw [enclosing?_newFrame] at enclosed
  split at enclosed
  · next last => exact last ▸ there outer enclosed
  · exact ordered frame outer enclosed

theorem Ordered.define (ordered : s.Ordered) (holder : FrameId) (name : String) (v : Value) :
    (s.define holder name v).Ordered := by
  intro frame outer enclosed
  rw [enclosing?_define] at enclosed
  exact ordered frame outer enclosed

theorem Ordered.overwrite (ordered : s.Ordered) (holder : Option FrameId) (name : String) (v : Value) :
    (s.overwrite holder name v).2.Ordered := by
  cases holder with
  | none => exact ordered
  | some frame => exact ordered.define frame name v

/-- However a store is built, its frames are in order. -/
theorem Built.ordered (built : s.Built) : s.Ordered := by
  induction built with
  | empty => exact fun frame outer enclosed => absurd enclosed (by simp [enclosing?, Store.empty])
  | outermost _ bindings ih => exact ih.newFrame (by rintro _ ⟨⟩) bindings
  | enclosed _ there bindings ih => exact ih.newFrame (by rintro _ ⟨⟩; exact there) bindings
  | define _ frame name v ih => exact ih.define frame name v
  | assign _ frame name v ih =>
    rw [assign_eq]
    exact ih.overwrite _ name v
  | assignAt _ distance frame name v ih =>
    rw [assignAt_eq]
    exact ih.overwrite _ name v

theorem Ordered.acyclic (ordered : s.Ordered) :
    ¬ Relation.TransGen (fun inner outer => s.enclosing? inner = some outer) frame frame := by
  have older {inner outer : FrameId}
      (chain : Relation.TransGen (fun inner outer => s.enclosing? inner = some outer) inner outer) :
      outer.index < inner.index := by
    induction chain with
    | single enclosed => exact ordered _ _ enclosed
    | tail _ enclosed ih => exact Nat.lt_trans (ordered _ _ enclosed) ih
  exact fun cycle => Nat.lt_irrefl _ (older cycle)

/-- A chain has no more frames than the number of its first frame allows. -/
theorem Ordered.distance_le (ordered : s.Ordered) {distance : Nat}
    (found : s.ancestor? distance frame = some holder) : distance ≤ frame.index := by
  induction distance generalizing frame with
  | zero => exact Nat.zero_le _
  | succ distance ih =>
    obtain ⟨outer, enclosed, later⟩ := Option.bind_eq_some_iff.mp found
    have := ordered _ _ enclosed
    have := ih later
    omega

theorem Ordered.chain_ends (ordered : s.Ordered) (frame : FrameId) :
    s.ancestor? (frame.index + 1) frame = none := by
  rw [Option.eq_none_iff_forall_ne_some]
  intro holder found
  exact Nat.not_succ_le_self _ (ordered.distance_le found)

theorem firstAt_zero_iff : s.FirstAt name 0 frame holder ↔ s.binds frame name ∧ frame = holder := by
  constructor
  · rintro ⟨found, bound, -⟩
    obtain rfl := Option.some.inj found
    exact ⟨bound, rfl⟩
  · rintro ⟨bound, rfl⟩
    exact ⟨rfl, bound, fun _ nearer => absurd nearer (Nat.not_lt_zero _)⟩

/-- Further along the chain the first frame is the first one from the enclosing frame. -/
theorem firstAt_succ_iff {distance : Nat} : s.FirstAt name (distance + 1) frame holder ↔
    ¬ s.binds frame name ∧
      ∃ outer, s.enclosing? frame = some outer ∧ s.FirstAt name distance outer holder := by
  have further {outer : FrameId} (enclosed : s.enclosing? frame = some outer) (distance : Nat) :
      s.ancestor? (distance + 1) frame = s.ancestor? distance outer := by
    rw [ancestor?, enclosed, Option.bind_some]
  constructor
  · rintro ⟨found, bound, first⟩
    obtain ⟨outer, enclosed, later⟩ := Option.bind_eq_some_iff.mp found
    refine ⟨first 0 (Nat.succ_pos _) frame rfl, outer, enclosed, later, bound, ?_⟩
    intro nearer closer passed there
    exact first (nearer + 1) (Nat.succ_lt_succ closer) passed (further enclosed nearer ▸ there)
  · rintro ⟨unbound, outer, enclosed, later, bound, first⟩
    refine ⟨further enclosed distance ▸ later, bound, ?_⟩
    intro nearer closer passed there
    cases nearer with
    | zero => exact Option.some.inj there ▸ unbound
    | succ nearer =>
      exact first nearer (Nat.lt_of_succ_lt_succ closer) passed (further enclosed nearer ▸ there)

/-- The search finds the first of so many frames that binds the name. -/
theorem holderWithin?_eq_some_iff (s : Store) (name : String) (fuel : Nat) (frame holder : FrameId) :
    s.holderWithin? name fuel frame = some holder ↔
      ∃ distance < fuel, s.FirstAt name distance frame holder := by
  induction fuel generalizing frame with
  | zero => exact ⟨nofun, fun ⟨_, within, _⟩ => absurd within (Nat.not_lt_zero _)⟩
  | succ fuel ih =>
    -- the search finds the frame itself or goes one frame out, and so does the distance
    rw [holderWithin?, Nat.exists_lt_succ_left, firstAt_zero_iff]
    simp only [firstAt_succ_iff]
    split
    · next bound => simp [bound]
    · next unbound =>
      simp only [Option.bind_eq_some_iff, ih]
      constructor
      · rintro ⟨outer, enclosed, distance, within, first⟩
        exact .inr ⟨distance, within, unbound, outer, enclosed, first⟩
      · rintro (⟨bound, -⟩ | ⟨distance, within, -, outer, enclosed, first⟩)
        · exact absurd bound unbound
        · exact ⟨outer, enclosed, distance, within, first⟩

/-- A name is found in the frame that its lookup comes to. -/
theorem Ordered.holder?_eq_some_iff (ordered : s.Ordered) (lookup : Lookup) (frame : FrameId)
    (name : String) (holder : FrameId) :
    lookup.holder? s frame name = some holder ↔ lookup.ComesTo s frame name holder := by
  cases lookup with
  | nearest =>
    refine (holderWithin?_eq_some_iff s name (frame.index + 1) frame holder).trans ⟨?_, ?_⟩
    · rintro ⟨distance, -, found⟩
      exact ⟨distance, found⟩
    · rintro ⟨distance, found⟩
      exact ⟨distance, Nat.lt_succ_of_le (ordered.distance_le found.1), found⟩
  | distant distance => exact Option.filter_eq_some_iff

end Chains

section Writing

variable {s after : Store} {holder : FrameId} {name : String} {v : Value} (lookup : Lookup)

theorem Lookup.read_eq (frame : FrameId) (name : String) :
    lookup.read s frame name = (lookup.holder? s frame name).bind fun holder => s.read? holder name := by
  cases lookup with
  | nearest => exact s.get?_eq frame name
  | distant distance => exact s.getAt?_eq distance frame name

theorem Lookup.write_eq (frame : FrameId) (name : String) (v : Value) :
    lookup.write s frame name v = s.overwrite (lookup.holder? s frame name) name v := by
  cases lookup with
  | nearest => exact s.assign_eq frame name v
  | distant distance => exact s.assignAt_eq distance frame name v

theorem Lookup.binds_of_holder? {frame : FrameId} (held : lookup.holder? s frame name = some holder) :
    s.binds holder name := by
  cases lookup with
  | nearest => exact Store.binds_of_holder? held
  | distant => exact binds_of_holderAt? held

/-- What is found can be read. -/
theorem Lookup.read_isSome (frame : FrameId) (name : String) :
    (lookup.read s frame name).isSome = (lookup.holder? s frame name).isSome := by
  rw [Lookup.read_eq]
  cases held : lookup.holder? s frame name with
  | none => rfl
  | some holder => exact lookup.binds_of_holder? held

theorem rebound_define (bound : s.binds holder name) (v : Value) :
    Rebound s holder name v (s.define holder name v) where
  binding frame other := by
    obtain ⟨w, found⟩ := Option.isSome_iff_exists.mp bound
    have there := read?_some_lt found
    rw [read?_define]
    by_cases hit : frame = holder ∧ other = name
    · obtain ⟨rfl, rfl⟩ := hit
      rw [if_pos ⟨rfl, rfl, there⟩, if_pos ⟨rfl, rfl⟩]
    · rw [if_neg fun within => hit ⟨within.1, within.2.1⟩, if_neg hit]
  enclosing frame := enclosing?_define s holder name v frame
  size := by simp [define]
  instances := rfl
  functions := rfl
  classes := rfl

namespace Rebound

variable (rebound : Rebound s holder name v after) (bound : s.binds holder name)
include rebound

theorem ancestor? (distance : Nat) (frame : FrameId) :
    after.ancestor? distance frame = s.ancestor? distance frame := by
  induction distance generalizing frame with
  | zero => rfl
  | succ distance ih =>
    rw [Store.ancestor?, Store.ancestor?, rebound.enclosing]
    exact Option.bind_congr fun outer _ => ih outer

include bound

/-- No name is bound that was not, and every name that was still is. -/
theorem binds (frame : FrameId) (other : String) : after.binds frame other = s.binds frame other := by
  rw [Store.binds, rebound.binding]
  split
  · next hit =>
    obtain ⟨rfl, rfl⟩ := hit
    exact bound.symm
  · rfl

theorem holderWithin? (fuel : Nat) (frame : FrameId) (other : String) :
    after.holderWithin? other fuel frame = s.holderWithin? other fuel frame := by
  induction fuel generalizing frame with
  | zero => rfl
  | succ fuel ih =>
    rw [Store.holderWithin?, Store.holderWithin?, rebound.binds bound, rebound.enclosing]
    congr 1
    exact Option.bind_congr fun outer _ => ih outer

/-- Every name is found where it was. -/
theorem holder? (frame : FrameId) (other : String) :
    lookup.holder? after frame other = lookup.holder? s frame other := by
  cases lookup with
  | nearest => exact rebound.holderWithin? bound _ frame other
  | distant distance =>
    simp only [Lookup.holder?, holderAt?, rebound.ancestor?, rebound.binds bound]

/-- A name that is found in the frame has the new value. -/
theorem read_through {reader : FrameId} (held : lookup.holder? s reader name = some holder) :
    lookup.read after reader name = some v := by
  rw [Lookup.read_eq, rebound.holder? lookup bound, held, Option.bind_some, rebound.binding,
    if_pos ⟨rfl, rfl⟩]

/-- A name that is found elsewhere, and any other name, is read as before. -/
theorem read_elsewhere {reader : FrameId} {other : String}
    (apart : ¬ (other = name ∧ lookup.holder? s reader other = some holder)) :
    lookup.read after reader other = lookup.read s reader other := by
  rw [Lookup.read_eq, Lookup.read_eq, rebound.holder? lookup bound]
  refine Option.bind_congr fun found held => ?_
  rw [rebound.binding, if_neg]
  rintro ⟨rfl, same⟩
  exact apart ⟨same, held⟩

end Rebound

end Writing

/-- In every store that is built frame by frame, no frame encloses itself however far out, and every
chain of frames ends. A name is read in the frame that its lookup comes to, and in no other: it can be
written exactly if it can be read. A write that fails changes nothing. One that succeeds changes the one
binding that the read reads, and nothing else; both ways to look for a name, from any frame, read the
new value where they come to this binding, and read what they read before where they do not. -/
theorem writes_are_seen_through_their_binding {s : Store} (built : s.Built) :
    (∀ frame,
      ¬ Relation.TransGen (fun inner outer => s.enclosing? inner = some outer) frame frame) ∧
    (∀ frame, ∃ distance, s.ancestor? distance frame = none) ∧
    ∀ (lookup : Lookup) (frame : FrameId) (name : String),
      (∀ v, lookup.read s frame name = some v ↔
        ∃ holder, lookup.ComesTo s frame name holder ∧ s.read? holder name = some v) ∧
      ∀ v, ((lookup.write s frame name v).1 = true ↔ ∃ old, lookup.read s frame name = some old) ∧
        ((lookup.write s frame name v).1 = false → (lookup.write s frame name v).2 = s) ∧
        ((lookup.write s frame name v).1 = true → ∃ holder,
          lookup.ComesTo s frame name holder ∧
          Rebound s holder name v (lookup.write s frame name v).2 ∧
          (∀ (other : Lookup) reader, other.ComesTo s reader name holder →
            other.read (lookup.write s frame name v).2 reader name = some v) ∧
          ∀ (other : Lookup) reader key, ¬ (key = name ∧ other.ComesTo s reader key holder) →
            other.read (lookup.write s frame name v).2 reader key = other.read s reader key) := by
  have ordered := built.ordered
  refine ⟨fun frame => ordered.acyclic, fun frame => ⟨_, ordered.chain_ends frame⟩,
    fun lookup frame name => ⟨fun v => ?_, fun v => ?_⟩⟩
  · rw [Lookup.read_eq, Option.bind_eq_some_iff]
    simp only [ordered.holder?_eq_some_iff]
  · rw [← Option.isSome_iff_exists, Lookup.read_isSome, Lookup.write_eq]
    cases held : lookup.holder? s frame name with
    | none => exact ⟨Iff.rfl, fun _ => rfl, nofun⟩
    | some holder =>
      have bound := lookup.binds_of_holder? held
      have rebound := rebound_define bound v
      refine ⟨⟨fun _ => rfl, fun _ => rfl⟩, nofun, fun _ => ⟨holder, ?_, rebound, ?_, ?_⟩⟩
      · exact (ordered.holder?_eq_some_iff lookup frame name holder).mp held
      · intro other reader comes
        exact rebound.read_through other bound ((ordered.holder?_eq_some_iff ..).mpr comes)
      · intro other reader key apart
        rw [← ordered.holder?_eq_some_iff] at apart
        exact rebound.read_elsewhere other bound apart

/-- What one call of a counter writes to the variable that it captured, another call reads; a global
variable of the same name is not touched. -/
theorem counter_shared_by_two_calls :
    let globals := (Store.empty.newFrame none [("count", .nil)]).2
    let counter := (globals.newFrame (some ⟨0⟩) [("count", .boolean false)]).2
    let called := (counter.newFrame (some ⟨1⟩) []).2
    let s := (called.newFrame (some ⟨1⟩) []).2
    let after := (Lookup.nearest.write s ⟨2⟩ "count" (.boolean true)).2
    s.Built ∧ Lookup.nearest.read after ⟨3⟩ "count" = some (.boolean true) ∧
      (Lookup.distant 1).read after ⟨3⟩ "count" = some (.boolean true) ∧
      Lookup.nearest.read after ⟨0⟩ "count" = some .nil := by
  intro globals counter called s after
  have built : s.Built := by
    refine .enclosed (.enclosed (.enclosed (.outermost .empty _) ?_ _) ?_ _) ?_ _
    all_goals decide
  obtain ⟨-, -, laws⟩ := writes_are_seen_through_their_binding built
  obtain ⟨-, writes⟩ := laws .nearest ⟨2⟩ "count"
  obtain ⟨-, -, succeeds⟩ := writes (.boolean true)
  obtain ⟨holder, comes, -, through, elsewhere⟩ := succeeds rfl
  have found (lookup : Lookup) (frame : FrameId) (name : String) (holder : FrameId) :=
    built.ordered.holder?_eq_some_iff lookup frame name holder
  obtain rfl : ⟨1⟩ = holder := Option.some.inj ((found .nearest ⟨2⟩ "count" holder).mpr comes)
  refine ⟨built, through .nearest ⟨3⟩ ?_, through (.distant 1) ⟨3⟩ ?_,
    elsewhere .nearest ⟨0⟩ "count" ?_⟩
  · exact (found ..).mp rfl
  · exact (found ..).mp rfl
  · rw [← found]
    rintro ⟨-, ⟨⟩⟩

end Store
end LoxLang
