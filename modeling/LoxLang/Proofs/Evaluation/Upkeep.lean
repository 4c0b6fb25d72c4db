import LoxLang.Proofs.Evaluation.Mirror

/-! The primitive steps of a run keep its store sound. What they yield is sound as well: a value that
is read was in the store, and a function that is made mirrors the scopes that are open where it is
made. -/
namespace LoxLang

theorem Table.mem_of_get?_ofList {α : Type} {pairs : List (String × α)} {name : String} {a : α}
    (found : (Table.ofList pairs).get? name = some a) : (name, a) ∈ pairs := by
  have folded (pairs : List (String × α)) (t : Table α)
      (found : (pairs.foldl (fun t pair => t.set pair.1 pair.2) t).get? name = some a) :
      (name, a) ∈ pairs ∨ t.get? name = some a := by
    induction pairs generalizing t with
    | nil => exact .inr found
    | cons pair rest ih =>
      rcases ih _ found with later | earlier
      · exact .inl (List.mem_cons_of_mem _ later)
      · rw [Table.get?_set] at earlier
        split at earlier
        · next same =>
          cases earlier
          exact .inl (same ▸ List.mem_cons_self)
        · exact .inr earlier
  rcases folded pairs [] found with member | none
  · exact member
  · cases none

/-- A name that is written in a list of pairs has a value in their table. -/
theorem Table.contains_ofList {α : Type} {pairs : List (String × α)} {name : String}
    (written : name ∈ pairs.map Prod.fst) : ((Table.ofList pairs).get? name).isSome := by
  have folded (t : Table α) (pairs : List (String × α))
      (either : name ∈ pairs.map Prod.fst ∨ (t.get? name).isSome) :
      ((pairs.foldl (fun t pair => t.set pair.1 pair.2) t).get? name).isSome := by
    induction pairs generalizing t with
    | nil => simpa using either
    | cons pair rest ih =>
      apply ih
      by_cases same : name = pair.1
      · simp [Table.get?_set, same]
      · simpa [Table.get?_set, same] using either
  exact folded [] pairs (.inl written)

namespace Store

theorem read_of_getAt? {s : Store} {d : Nat} {frame : FrameId} {name : String} {v : Value}
    (found : s.getAt? d frame name = some v) : ∃ holder, s.read? holder name = some v := by
  rw [getAt?_eq] at found
  obtain ⟨holder, _, read⟩ := Option.bind_eq_some_iff.mp found
  exact ⟨holder, read⟩

theorem getAt?_of_read {s : Store} {d : Nat} {frame holder : FrameId} {name : String} {v : Value}
    (ancestor : s.ancestor? d frame = some holder) (found : s.read? holder name = some v) :
    s.getAt? d frame name = some v := by
  have bound : s.binds holder name := Option.isSome_of_eq_some found
  simp only [getAt?_eq, holderAt?, ancestor, Option.filter_some, bound, if_true, Option.bind_some, found]

theorem read_of_get? {s : Store} {frame : FrameId} {name : String} {v : Value}
    (found : s.get? frame name = some v) : ∃ holder, s.read? holder name = some v := by
  rw [get?_eq] at found
  obtain ⟨holder, _, read⟩ := Option.bind_eq_some_iff.mp found
  exact ⟨holder, read⟩

end Store

namespace Eval.Run
open Scope

variable {run : Run} {s : Store}

namespace StoreSound

theorem newFrame (sound : run.StoreSound s) (enclosing : Option FrameId) {bindings : Table Value}
    (values : ∀ name v, bindings.get? name = some v → run.ValueSound s v) :
    run.StoreSound (s.newFrame enclosing bindings).2 := by
  have kept := Store.Kept.newFrame s enclosing bindings
  apply sound.grown kept
  · intro frame name v found
    rw [Store.read?_newFrame] at found
    split at found
    · exact .inr ((values name v found).grown kept)
    · exact .inl found
  · exact fun _ _ _ found => .inl found

/-- A new frame that binds one name. -/
theorem newWord (sound : run.StoreSound s) (enclosing : Option FrameId) (word : String) {v : Value}
    (value : run.ValueSound s v) : run.StoreSound (s.newFrame enclosing [(word, v)]).2 := by
  apply sound.newFrame enclosing
  intro name w found
  obtain ⟨_, rfl⟩ := Table.eq_of_get?_singleton found
  exact value

theorem define (sound : run.StoreSound s) {frame : FrameId} {name : String} {v : Value}
    (free : ∀ k : Keyword, name ≠ k.spelling) (value : run.ValueSound (s.define frame name v) v) :
    run.StoreSound (s.define frame name v) := by
  apply sound.grown (.define s frame free v)
  · intro other key w found
    rw [Store.read?_define] at found
    split at found
    · cases found
      exact .inr value
    · exact .inl found
  · exact fun _ _ _ found => .inl found

theorem overwrite (sound : run.StoreSound s) (holder : Option FrameId) {name : String} {v : Value}
    (free : ∀ k : Keyword, name ≠ k.spelling) (value : run.ValueSound s v) :
    run.StoreSound (s.overwrite holder name v).2 := by
  cases holder with
  | none => exact sound
  | some frame => exact sound.define free (value.grown (.define s frame free v))

/-- A step that leaves the frames alone. -/
theorem of_frames {after : Store} (sound : run.StoreSound s) (kept : s.Kept after)
    (frames : after.frames = s.frames)
    (fields : ∀ i name v, after.field? i name = some v →
      s.field? i name = some v ∨ run.ValueSound after v) : run.StoreSound after := by
  apply sound.grown kept _ fields
  intro frame name v found
  exact .inl (by simpa only [Store.read?, frames] using found)

theorem setField (sound : run.StoreSound s) (i : Instance) (name : String) {v : Value}
    (value : run.ValueSound s v) : run.StoreSound (s.setField i name v) := by
  have kept := Store.Kept.setField s i name v
  apply sound.of_frames kept rfl
  intro other key w found
  rw [Store.field?_setField] at found
  split at found
  · cases found
    exact .inr (value.grown kept)
  · exact .inl found

theorem newInstance (sound : run.StoreSound s) (c : Class) : run.StoreSound (s.newInstance c).2 := by
  apply sound.of_frames (.newInstance s c) rfl
  intro other key w found
  rw [Store.field?_newInstance] at found
  exact .inl found

theorem newFunction (sound : run.StoreSound s) (d : Declaration) (closure : FrameId)
    (isInitializer : Bool) : run.StoreSound (s.newFunction d closure isInitializer).2 :=
  sound.of_frames (.of_frames rfl (Nat.le_refl _)) rfl fun _ _ _ found => .inl found

theorem newClass (sound : run.StoreSound s) (name : String) (superclass : Option Class)
    (methods : Table Function) : run.StoreSound (s.newClass name superclass methods).2 :=
  sound.of_frames (.of_frames rfl (Nat.le_refl _)) rfl fun _ _ _ found => .inl found

end StoreSound

/-- If the part gives a result, the store has kept what reserved words are bound to and is sound
then, and `ok` holds of them. -/
def Gives {α : Type} (run : Run) (part : Eval α) (m : Machine) (ok : α → Machine → Prop) : Prop :=
  Ends part m (fun a after => m.store.Kept after.store ∧ run.StoreSound after.store ∧ ok a after)
    fun _ _ => True

namespace Gives

variable {α β : Type} {part : Eval α} {next : α → Eval β} {m : Machine} {ok ok' : α → Machine → Prop}
  {done : β → Machine → Prop}

theorem mono (gives : run.Gives part m ok) (weaker : ∀ a after, ok a after → ok' a after) :
    run.Gives part m ok' :=
  Ends.mono gives (fun a after given => ⟨given.1, given.2.1, weaker a after given.2.2⟩) fun _ _ => id

/-- What the store has kept is known wherever the part gives a result. -/
theorem kept (gives : run.Gives part m ok) :
    run.Gives part m fun a after => ok a after ∧ m.store.Kept after.store :=
  Ends.mono gives (fun _ _ given => ⟨given.1, given.2.1, given.2.2, given.1⟩) fun _ _ => id

theorem bind (first : run.Gives part m ok) (rest : ∀ a after, part m = .ok a after →
      run.StoreSound after.store → ok a after → run.Gives (next a) after done) :
    run.Gives (part >>= next) m done := by
  apply Ends.bind first
  intro a after ended given
  apply Ends.mono (rest a after ended given.2.1 given.2.2) _ fun _ _ => id
  exact fun b last later => ⟨given.1.trans later.1, later.2⟩

theorem pure {a : α} (sound : run.StoreSound m.store) (holds : ok a m) :
    run.Gives (Pure.pure a) m ok := ⟨.refl _, sound, holds⟩

theorem throw (e : Interruption) : run.Gives (MonadExcept.throw e : Eval α) m ok := trivial

/-- A step that only looks at the machine. -/
theorem looked {a : α} (sound : run.StoreSound m.store) (ended : part m = .ok a m) (holds : ok a m) :
    run.Gives part m ok := Ends.of_ok ended ⟨.refl _, sound, holds⟩

/-- A part inside a frame gives what it gives there. -/
theorem inFrame {frame : FrameId} (inner : run.Gives part { m with current := frame }
      fun a after => ok a { after with current := m.current }) :
    run.Gives (Eval.inFrame frame part) m ok := inFrame_ends inner

theorem inCall (inner : run.Gives part { m with activeCalls := m.activeCalls + 1 }
      fun a after => ok a { after with activeCalls := after.activeCalls - 1 }) :
    run.Gives (Eval.inCall part) m ok := inCall_ends inner

theorem ofOption {found : Option Value} {cause : RuntimeError.Cause} {line : Nat}
    {ok : Value → Machine → Prop} (sound : run.StoreSound m.store)
    (holds : ∀ v, found = some v → ok v m) : run.Gives (Eval.ofOption found cause line) m ok := by
  cases found with
  | none => exact throw _
  | some v => exact pure sound (holds v rfl)

theorem ofExcept {result : Except RuntimeError Value} {ok : Value → Machine → Prop}
    (sound : run.StoreSound m.store) (holds : ∀ v, result = .ok v → ok v m) :
    run.Gives (Eval.ofExcept result) m ok := by
  cases result with
  | error e => exact throw _
  | ok v => exact pure sound (holds v rfl)

end Gives

variable {m : Machine} (sound : run.StoreSound m.store)
include sound

theorem lookUp_gives (r : Reference) :
    run.Gives (lookUp r) m fun v after => m = after ∧ run.ValueSound m.store v := by
  have read {v : Value} (found : ∃ holder, m.store.read? holder r.name.lexeme = some v) :
      m = m ∧ run.ValueSound m.store v := by
    obtain ⟨holder, found⟩ := found
    exact ⟨rfl, sound.bound holder _ v found⟩
  change run.Gives (Eval.ofOption _ _ _) m _
  apply Gives.ofOption sound
  intro v found
  split at found
  · exact read (Store.read_of_getAt? found)
  · exact read (Store.read_of_get? found)

theorem get_gives : run.Gives (get : Eval Machine) m fun seen after => m = seen ∧ m = after :=
  .looked sound rfl ⟨rfl, rfl⟩

theorem currentFrame_gives :
    run.Gives currentFrame m fun frame after => frame = m.current ∧ m = after :=
  .looked sound rfl ⟨rfl, rfl⟩

/-- A call that passes its checks goes on from the machine that it found. -/
theorem checkCall_gives (callee : Value) (line : Nat) (arguments : List Value) :
    run.Gives (checkCall callee line arguments) m fun f after =>
      m = after ∧ checkCall callee line arguments m = .ok f m := by
  apply Ends.of_forall
  · intro f after checked
    obtain ⟨_, _, _, rfl⟩ := checkCall_eq_ok_iff.mp checked
    exact ⟨.refl _, sound, rfl, checked⟩
  · exact fun _ _ _ => trivial

theorem overwrite_gives {name : Token} (free : name.Unreserved)
    (holder : Store → Option FrameId) {v : Value} (value : run.ValueSound m.store v) :
    run.Gives (overwrite name fun s => s.overwrite (holder s) name.lexeme v) m fun _ _ => True := by
  have written : run.Gives (onStore fun s => s.overwrite (holder s) name.lexeme v) m
      fun _ _ => True := ⟨.overwrite _ _ free v, sound.overwrite _ free value, trivial⟩
  apply written.bind
  intro found after _ kept _
  cases found with
  | true => exact .pure kept trivial
  | false => exact .throw _

theorem assign_gives {r : Reference} (free : r.name.Unreserved) {v : Value}
    (value : run.ValueSound m.store v) : run.Gives (assign r v) m fun _ _ => True := by
  apply (get_gives sound).bind
  rintro _ _ _ _ ⟨rfl, rfl⟩
  split
  · simp only [Store.assignAt_eq]
    exact overwrite_gives sound free (fun s => s.holderAt? _ m.current r.name.lexeme) value
  · simp only [Store.assign_eq]
    exact overwrite_gives sound free (fun s => s.holder? m.globals r.name.lexeme) value

theorem define_gives {name : Token} (free : name.Unreserved) {v : Value}
    (value : run.ValueSound (m.store.define m.current name.lexeme v) v)
    (there : m.current.index < m.store.frames.size) :
    run.Gives (define name v) m fun _ after => after.store.binds m.current name.lexeme :=
  ⟨.define _ _ free v, sound.define free value, Store.binds_define there name.lexeme v⟩

theorem print_gives (v : Value) : run.Gives (print v) m fun _ _ => True := by
  unfold print Gives Ends
  dsimp only
  split
  · next ended =>
    split at ended
    · cases ended
      exact ⟨.refl _, sound, trivial⟩
    · cases ended
  · trivial

/-- A method that is bound stands inside one more scope, in which `this` is the instance. -/
theorem bindMethod_gives {moment : Moment} {scopes : List Activation} {method : Function}
    {i : Instance} (here : run.Opened moment scopes) (binds : BindsMethod moment m.store method i)
    (unbound : run.MethodSound m.store method) (instanceSound : run.InstanceSound m.store i) :
    run.Gives (onStore fun s => s.bindMethod method i) m fun f after =>
      run.FunctionSound after.store f := by
  obtain ⟨methods, levels, around, made, mirrored, included⟩ := unbound
  have framing := Store.Kept.newFrame m.store (some method.closure) [("this", .instance_ i)]
  have value : run.ValueSound m.store (.instance_ i) := instanceSound
  have framed := sound.newWord (some method.closure) "this" value
  have counting : (m.store.newFrame (some method.closure) [("this", .instance_ i)]).2.Kept
      (m.store.bindMethod method i).2 := .of_frames rfl (Nat.le_refl _)
  refine ⟨framing.trans counting, framed.newFunction method.declaration ⟨m.store.frames.size⟩
    method.isInitializer, _, _, .bound here binds made, ?_, included⟩
  have around : Mirrored run.first.globals _ _ (.receiver methods i ⟨m.store.frames.size⟩ :: _) _ :=
    mirrored.word rfl id
  exact around.grown counting

end Eval.Run
end LoxLang
