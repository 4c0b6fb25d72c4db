import LoxLang.Proofs.Evaluation.Within
import LoxLang.Proofs.Pairs
import LoxLang.Proofs.Renaming.Store

/-! Two machines on which programs run that are alike up to a renaming, and the primitive steps on them.
A step on one machine is matched by the step on the other: both give results that are alike and leave
machines that are alike, in a layout that may have grown, or both fail in the same way, on machines that
are alike as well. -/
namespace LoxLang
namespace Comparison
open Grammar Eval Renaming

variable (ρ : Comparison)

/-- The machines are alike; the scopes of the current frame and of those around it have these marks. -/
structure MachinesAlike (w : Layout) (marks : List Bool) (m m' : Machine) : Prop where
  chain : ρ.Chain w m.current m'.current marks
  top : ρ.Chain w m.globals m'.globals []
  depths : m.depths = ρ.depths
  depths' : m'.depths = ρ.depths'
  activeCalls : m'.activeCalls = m.activeCalls
  store : ρ.StoresAlike w m.store m'.store
  output : m'.output = m.output
  clock : m'.clock = m.clock
  clockReadings : m'.clockReadings = m.clockReadings

/-- The causes are the same, but for the name of a variable. -/
inductive CauseAlike : RuntimeError.Cause → RuntimeError.Cause → Prop
  | same {cause} : CauseAlike cause cause
  | undefined {name marked} :
    CauseAlike (.undefinedVariable name) (.undefinedVariable (ρ.name marked name))

inductive InterruptionAlike : Interruption → Interruption → Prop
  | fault {e e' : RuntimeError} (cause : ρ.CauseAlike e.cause e'.cause)
    (line : ρ.line e.line e'.line) : InterruptionAlike (.fault e) (.fault e')
  | sinkFull : InterruptionAlike .sinkFull .sinkFull
  | exhausted : InterruptionAlike .exhausted .exhausted

/-- Both parts are interrupted alike, on machines that are alike in a layout that has grown. -/
def FailuresAlike (w : Layout) (marks : List Bool) (e : Interruption) (after : Machine)
    (e' : Interruption) (after' : Machine) : Prop :=
  ρ.InterruptionAlike e e' ∧ ∃ w', w <+: w' ∧ ρ.MachinesAlike w' marks after after'

variable {α α' β β' : Type}

/-- Both parts give results that are related, on machines that are alike in a layout that has grown. -/
def ResultsAlike (w : Layout) (marks : List Bool) (R : Layout → α → α' → Prop) (a : α) (after : Machine)
    (a' : α') (after' : Machine) : Prop :=
  ∃ w', w <+: w' ∧ ρ.MachinesAlike w' marks after after' ∧ R w' a a'

/-- On machines that are alike the parts both give results that are related, or both fail alike. -/
def Matches (w : Layout) (marks : List Bool) (R : Layout → α → α' → Prop) (part : Eval α)
    (part' : Eval α') : Prop :=
  ∀ m m', ρ.MachinesAlike w marks m m' →
    Pairs part part' m m' (ρ.ResultsAlike w marks R) (ρ.FailuresAlike w marks)

/-- Nothing is asked of the results. -/
abbrev Anything : Layout → α → α' → Prop := fun _ _ _ => True

/-- The results are the innermost of frames of scopes with these marks. -/
abbrev SameScopes (marks : List Bool) : Layout → FrameId → FrameId → Prop :=
  fun w frame frame' => ρ.Chain w frame frame' marks

variable {ρ} {w : Layout} {marks : List Bool} {marked : Bool}

/-- Where nothing gets another name the causes are the same. -/
theorem CauseAlike.eq (same : ρ.old = ρ.new) {cause cause' : RuntimeError.Cause}
    (alike : ρ.CauseAlike cause cause') : cause' = cause := by
  cases alike with
  | same => rfl
  | undefined => rw [name_of_same same]

/-- Where the lines are the same as well, so is whatever interrupts a run. -/
theorem InterruptionAlike.eq (same : ρ.old = ρ.new)
    (lines : ∀ line line', ρ.line line line' → line' = line)
    {e e' : Interruption} (alike : ρ.InterruptionAlike e e') : e' = e := by
  cases alike with
  | @fault e e' causes later =>
    obtain ⟨cause, line⟩ := e
    obtain ⟨cause', line'⟩ := e'
    have causes : cause' = cause := causes.eq same
    have later : line' = line := lines _ _ later
    rw [causes, later]
  | sinkFull => rfl
  | exhausted => rfl

theorem FailuresAlike.before {w' : Layout} (grown : w <+: w') {e e' : Interruption} {after after' : Machine}
    (failed : ρ.FailuresAlike w' marks e after e' after') : ρ.FailuresAlike w marks e after e' after' := by
  obtain ⟨interruptions, w'', grown', alike⟩ := failed
  exact ⟨interruptions, w'', grown.trans grown', alike⟩

namespace MachinesAlike

variable {m m' : Machine}

/-- A change of the stores alone. -/
theorem withStore (alike : ρ.MachinesAlike w marks m m') {w' : Layout} (grown : w <+: w')
    {s s' : Store} (stores : ρ.StoresAlike w' s s') :
    ρ.MachinesAlike w' marks { m with store := s } { m' with store := s' } :=
  { alike with chain := alike.chain.grown grown, top := alike.top.grown grown, store := stores }

theorem enter (alike : ρ.MachinesAlike w marks m m') {frame frame' : FrameId} {marks' : List Bool}
    (chain : ρ.Chain w frame frame' marks') :
    ρ.MachinesAlike w marks' { m with current := frame } { m' with current := frame' } :=
  { alike with chain := chain }

end MachinesAlike

namespace Matches

variable {R : Layout → α → α' → Prop} {S : Layout → β → β' → Prop} {part : Eval α} {part' : Eval α'}
  {next : α → Eval β} {next' : α' → Eval β'}

theorem pure {a : α} {a' : α'} (related : R w a a') :
    ρ.Matches w marks R (Pure.pure a : Eval α) (Pure.pure a') :=
  fun _ _ alike => ⟨w, List.prefix_refl w, alike, related⟩

theorem throw {e e' : Interruption} (alike : ρ.InterruptionAlike e e') :
    ρ.Matches w marks R (MonadExcept.throw e : Eval α) (MonadExcept.throw e' : Eval α') :=
  fun _ _ machines => ⟨alike, w, List.prefix_refl w, machines⟩

theorem exhausted : ρ.Matches w marks R (Eval.exhausted : Eval α) (Eval.exhausted : Eval α') :=
  throw .exhausted

theorem fail {cause cause' : RuntimeError.Cause} (alike : ρ.CauseAlike cause cause')
    {line line' : Nat} (lines : ρ.line line line') :
    ρ.Matches w marks R (Eval.fail cause line : Eval α) (Eval.fail cause' line' : Eval α') :=
  throw (.fault alike lines)

/-- What runs after the first parts does so in a layout that has grown. -/
theorem bind_ended {m m' : Machine}
    (first : Pairs part part' m m' (ρ.ResultsAlike w marks R) (ρ.FailuresAlike w marks))
    (rest : ∀ w' a after a' after', part m = .ok a after → w <+: w' →
      ρ.MachinesAlike w' marks after after' → R w' a a' →
      Pairs (next a) (next' a') after after' (ρ.ResultsAlike w' marks S) (ρ.FailuresAlike w' marks)) :
    Pairs (part >>= next) (part' >>= next') m m' (ρ.ResultsAlike w marks S) (ρ.FailuresAlike w marks) := by
  apply first.bind_ended
  rintro a after a' after' ended ⟨w', grown, alike, related⟩
  apply (rest w' a after a' after' ended grown alike related).mono
  · rintro b last b' last' ⟨w'', grown', result⟩
    exact ⟨w'', grown.trans grown', result⟩
  · exact fun _ _ _ _ => FailuresAlike.before grown

theorem bind (first : ρ.Matches w marks R part part')
    (rest : ∀ w' a a', w <+: w' → R w' a a' → ρ.Matches w' marks S (next a) (next' a')) :
    ρ.Matches w marks S (part >>= next) (part' >>= next') :=
  fun m m' alike => bind_ended (first m m' alike) fun w' a after a' after' _ grown alike' related =>
    rest w' a a' grown related after after' alike'

/-- Parts that depend on the machines that they find. -/
theorem inspect {next : Machine → Eval β} {next' : Machine → Eval β'}
    (rest : ∀ m m', ρ.MachinesAlike w marks m m' → ρ.Matches w marks S (next m) (next' m')) :
    ρ.Matches w marks S (get >>= next) (get >>= next') :=
  fun m m' alike => rest m m' alike m m' alike

/-- Parts that run in frames of the same scopes put back the frames from before. -/
theorem inFrame {frame frame' : FrameId} {marks' : List Bool} (chain : ρ.Chain w frame frame' marks')
    (parts : ρ.Matches w marks' R part part') :
    ρ.Matches w marks R (Eval.inFrame frame part) (Eval.inFrame frame' part') := by
  intro m m' alike
  rcases (parts _ _ (alike.enter chain)).ends with
    ⟨a, after, a', after', ended, ended', w', grown, alike', related⟩ |
    ⟨e, after, e', after', ended, ended', interruptions, w', grown, alike'⟩
  · exact .of_ok (inFrame_of_ok ended) (inFrame_of_ok ended')
      ⟨w', grown, alike'.enter (alike.chain.grown grown), related⟩
  · exact .of_error (inFrame_of_error ended) (inFrame_of_error ended')
      ⟨interruptions, w', grown, alike'.enter (alike.chain.grown grown)⟩

theorem inCall (parts : ρ.Matches w marks R part part') :
    ρ.Matches w marks R (Eval.inCall part) (Eval.inCall part') := by
  intro m m' alike
  have counted : ρ.MachinesAlike w marks { m with activeCalls := m.activeCalls + 1 }
      { m' with activeCalls := m'.activeCalls + 1 } :=
    { alike with activeCalls := congrArg (· + 1) alike.activeCalls }
  rcases (parts _ _ counted).ends with
    ⟨a, after, a', after', ended, ended', w', grown, alike', related⟩ |
    ⟨e, after, e', after', ended, ended', interruptions, w', grown, alike'⟩
  · exact .of_ok (inCall_of_ok ended) (inCall_of_ok ended')
      ⟨w', grown, { alike' with activeCalls := congrArg (· - 1) alike'.activeCalls }, related⟩
  · exact .of_error (inCall_of_error ended) (inCall_of_error ended')
      ⟨interruptions, w', grown, { alike' with activeCalls := congrArg (· - 1) alike'.activeCalls }⟩

theorem onStore {change : Store → α × Store} {change' : Store → α' × Store}
    (changes : ∀ s s', ρ.StoresAlike w s s' → ∃ w', w <+: w' ∧
      ρ.StoresAlike w' (change s).2 (change' s').2 ∧ R w' (change s).1 (change' s').1) :
    ρ.Matches w marks R (Eval.onStore change) (Eval.onStore change') := by
  intro m m' alike
  obtain ⟨w', grown, stores, related⟩ := changes m.store m'.store alike.store
  exact .of_ok rfl rfl ⟨w', grown, alike.withStore grown stores, related⟩

/-- A change of the stores that makes no frame. -/
theorem onStore_within {change : Store → α × Store} {change' : Store → α' × Store}
    (changes : ∀ s s', ρ.StoresAlike w s s' →
      ρ.StoresAlike w (change s).2 (change' s').2 ∧ R w (change s).1 (change' s').1) :
    ρ.Matches w marks R (Eval.onStore change) (Eval.onStore change') :=
  onStore fun s s' alike => ⟨w, List.prefix_refl w, changes s s' alike⟩

theorem currentFrame :
    ρ.Matches w marks (ρ.SameScopes marks) Eval.currentFrame Eval.currentFrame :=
  fun _ _ alike => ⟨w, List.prefix_refl w, alike, alike.chain⟩

theorem newFrame {enclosing enclosing' : FrameId} {outer : List Bool}
    (chain : ρ.Chain w enclosing enclosing' outer) (stays : ρ.Stays marked) {t t' : Table Value}
    (bindings : ρ.BindingsAlike w marked t t') :
    ρ.Matches w marks (ρ.SameScopes (marked :: outer)) (Eval.newFrame enclosing t)
      (Eval.newFrame enclosing' t') := by
  apply onStore
  intro s s' alike
  have growth : w <+: w ++ [⟨marked, some enclosing, some ⟨⟨s'.frames.size⟩, some enclosing'⟩⟩] :=
    List.prefix_append _ _
  refine ⟨_, growth, alike.newFrame bindings, .inside ?_ stays (chain.grown growth)⟩
  change (w ++ [_])[s.frames.size]? = _
  rw [alike.size, List.getElem?_concat_length]
  rfl

theorem ofOption {found found' : Option Value} (related : Option.Rel (ρ.ValueAlike w) found found')
    {cause cause' : RuntimeError.Cause} (causes : ρ.CauseAlike cause cause') {line line' : Nat}
    (lines : ρ.line line line') :
    ρ.Matches w marks ρ.ValueAlike (Eval.ofOption found cause line)
      (Eval.ofOption found' cause' line') := by
  cases related with
  | none => exact fail causes lines
  | some value => exact pure value

theorem overwrite {name name' : Token} {write write' : Store → Bool × Store}
    (causes : ρ.CauseAlike (.undefinedVariable name.lexeme) (.undefinedVariable name'.lexeme))
    (lines : ρ.line name.line name'.line)
    (writes : ∀ s s', ρ.StoresAlike w s s' →
      (write' s').1 = (write s).1 ∧ ρ.StoresAlike w (write s).2 (write' s').2) :
    ρ.Matches w marks Anything (Eval.overwrite name write) (Eval.overwrite name' write') := by
  have written : ρ.Matches w marks (fun _ b b' => b' = b) (Eval.onStore write)
      (Eval.onStore write') := onStore_within fun s s' alike => (writes s s' alike).symm
  apply written.bind
  rintro _ _ b' _ rfl
  cases b' with
  | true => exact pure trivial
  | false => exact fail causes lines

theorem readClock : ρ.Matches w marks ρ.ValueAlike Eval.readClock Eval.readClock := by
  intro m m' alike
  refine .of_ok rfl rfl ⟨w, List.prefix_refl w, ?_, ?_⟩
  · exact { alike with clockReadings := congrArg (· + 1) alike.clockReadings }
  · rw [alike.clock, alike.clockReadings]
    exact .number

end Matches

section Variables

variable {r r' : Reference} {v v' : Value}

theorem Refers.cause (refers : ρ.Refers marks r r') :
    ρ.CauseAlike (.undefinedVariable r.name.lexeme) (.undefinedVariable r'.name.lexeme) := by
  rw [refers.name.lexeme]
  exact .undefined

/-- A reference leads to a scope that is there in both programs. -/
theorem Refers.stays (refers : ρ.Refers marks r r') {d : Nat} (recorded : ρ.depths[r.id]? = some d) :
    ρ.Stays (marks[d]?.getD false) := by
  have stays := refers.name.stays
  rwa [leads, recorded] at stays

/-- A located reference has the name of the scope at its distance. -/
theorem Refers.located (refers : ρ.Refers marks r r') {d : Nat} (recorded : ρ.depths[r.id]? = some d) :
    r'.name.lexeme = ρ.name (marks[d]?.getD false) r.name.lexeme := by
  rw [refers.name.lexeme, leads, recorded]

theorem Refers.unlocated (refers : ρ.Refers marks r r') (absent : ρ.depths[r.id]? = none) :
    r'.name.lexeme = ρ.name false r.name.lexeme := by
  rw [refers.name.lexeme, leads, absent]

theorem lookUp_eq (r : Reference) (m : Machine) :
    lookUp r m = ofOption
      (m.depths[r.id]?.elim (m.store.get? m.globals r.name.lexeme)
        fun d => m.store.getAt? d m.current r.name.lexeme)
      (.undefinedVariable r.name.lexeme) r.name.line m := by
  unfold lookUp
  cases m.depths[r.id]? <;> rfl

theorem lookUp_matches (refers : ρ.Refers marks r r') :
    ρ.Matches w marks ρ.ValueAlike (lookUp r) (lookUp r') := by
  intro m m' alike
  have found : Option.Rel (ρ.ValueAlike w)
      (m.depths[r.id]?.elim (m.store.get? m.globals r.name.lexeme)
        fun d => m.store.getAt? d m.current r.name.lexeme)
      (m'.depths[r'.id]?.elim (m'.store.get? m'.globals r'.name.lexeme)
        fun d => m'.store.getAt? d m'.current r'.name.lexeme) := by
    rw [alike.depths, alike.depths', refers.depth]
    cases recorded : ρ.depths[r.id]? with
    | some d =>
      rw [Option.map_some, Option.elim_some, Option.elim_some, refers.located recorded]
      exact alike.store.getAt? alike.chain refers.name.fresh d (refers.stays recorded)
    | none =>
      rw [Option.map_none, Option.elim_none, Option.elim_none, refers.unlocated recorded, name_false]
      exact alike.store.get? alike.top refers.name.fresh
  unfold Pairs
  rw [lookUp_eq, lookUp_eq]
  exact Matches.ofOption found refers.cause refers.name.line m m' alike

theorem assign_matches (refers : ρ.Refers marks r r') (value : ρ.ValueAlike w v v') :
    ρ.Matches w marks Anything (assign r v) (assign r' v') := by
  apply Matches.inspect
  intro m m' alike
  dsimp only
  rw [alike.depths, alike.depths', refers.depth]
  cases recorded : ρ.depths[r.id]? with
  | some d =>
    apply Matches.overwrite refers.cause refers.name.line
    intro s s' stores
    have holders := stores.holderAt? alike.chain refers.name.fresh d (refers.stays recorded)
    rw [Store.assignAt_eq, Store.assignAt_eq, refers.located recorded]
    exact stores.overwrite holders refers.name.fresh value
  | none =>
    apply Matches.overwrite refers.cause refers.name.line
    intro s s' stores
    have holders := stores.holder? alike.top refers.name.fresh
    have written := stores.overwrite holders refers.name.fresh value
    rw [name_false] at written
    rw [Store.assign_eq, Store.assign_eq, refers.unlocated recorded, name_false]
    exact written

theorem define_matches {name name' : Token} (becomes : ρ.Becomes (marks.headD false) name name')
    (value : ρ.ValueAlike w v v') :
    ρ.Matches w marks Anything (define name v) (define name' v') := by
  intro m m' alike
  have stores := alike.store.define (alike.chain.head_twins becomes.stays) becomes.fresh value
  rw [← becomes.lexeme] at stores
  exact .of_ok rfl rfl ⟨w, List.prefix_refl w, alike.withStore (List.prefix_refl w) stores, trivial⟩

theorem print_matches (value : ρ.ValueAlike w v v') :
    ρ.Matches w marks Anything (print v) (print v') := by
  intro m m' alike
  unfold Pairs print
  rw [value.display, alike.output]
  cases m.output.write (v.display ++ "\n") with
  | mk whole output =>
    cases whole with
    | true => exact ⟨w, List.prefix_refl w, { alike with output := rfl }, trivial⟩
    | false => exact ⟨.sinkFull, w, List.prefix_refl w, { alike with output := rfl }⟩

end Variables

section Objects

variable {i i' : Instance} {v v' : Value}

/-- A frame with one binding, under a name that no scope changes. -/
theorem bindingsAlike_single (key : String) (value : ρ.ValueAlike w v v') :
    ρ.BindingsAlike w false [(key, v)] [(key, v')] := by
  intro name _
  rw [name_false]
  simp only [Table.get?]
  split
  · exact .some value
  · exact .none

/-- A method that is bound to an instance stands inside the scope of `this`. -/
theorem bindMethod_matches {method method' : Function} (methods : ρ.MethodAlike w method method')
    (id : i'.id = i.id) (classes : ρ.ClassAlike w i.cls i'.cls) :
    ρ.Matches w marks (fun w => ρ.FunctionAlike w []) (onStore fun s => s.bindMethod method i)
      (onStore fun s => s.bindMethod method' i') := by
  apply Matches.onStore
  intro s s' alike
  obtain ⟨outer, chain, routine⟩ := methods.routine
  let plan : FramePlan :=
    ⟨false, some method.closure, some ⟨⟨s'.frames.size⟩, some method'.closure⟩⟩
  have growth : w <+: w ++ [plan] := List.prefix_append _ _
  have bindings : ρ.BindingsAlike w false [("this", .instance_ i)] [("this", .instance_ i')] :=
    bindingsAlike_single "this" (.instance_ id classes)
  have framed : ρ.StoresAlike (w ++ [plan]) (s.newFrame (some method.closure) _).2
      (s'.newFrame (some method'.closure) _).2 := alike.newFrame bindings
  refine ⟨_, growth, ?_, ?_⟩
  · simp only [Store.bindMethod, methods.isInitializer]
    exact framed.newFunction method.declaration method'.declaration _ _ method.isInitializer
  · refine ⟨?_, methods.isInitializer, false :: outer, ?_, routine⟩
    · exact congrArg FunctionId.mk alike.functions
    · refine .inside ?_ stays_false (chain.grown growth)
      change (w ++ [_])[s.frames.size]? = _
      rw [alike.size, List.getElem?_concat_length]
      rfl

theorem property_matches (id : i'.id = i.id) (classes : ρ.ClassAlike w i.cls i'.cls)
    {name name' : Token} (same : ρ.Agrees name name') :
    ρ.Matches w marks ρ.ValueAlike (property i name) (property i' name') := by
  apply Matches.inspect
  intro m m' alike
  rw [same.lexeme]
  have field := alike.store.fields i i' id name.lexeme
  have method := classes.methods name.lexeme
  generalize m.store.field? i name.lexeme = found at *
  generalize m'.store.field? i' name.lexeme = found' at *
  cases field with
  | some value => exact .pure value
  | none =>
    generalize i.cls.findMethod? name.lexeme = found at *
    generalize i'.cls.findMethod? name.lexeme = found' at *
    cases method with
    | none => exact .fail .same same.line
    | some methods =>
      apply (bindMethod_matches methods id classes).bind
      exact fun w' f f' _ bound => .pure (.function bound)

theorem setProperty_matches (id : i'.id = i.id) {name name' : Token} (same : ρ.Agrees name name')
    (value : ρ.ValueAlike w v v') :
    ρ.Matches w marks Anything (setProperty i name v) (setProperty i' name' v') := by
  intro m m' alike
  refine .of_ok rfl rfl ⟨w, List.prefix_refl w, ?_, trivial⟩
  rw [same.lexeme]
  exact alike.withStore (List.prefix_refl w) (alike.store.setField id name.lexeme value)

/-- The scope just inside one that stays stays just inside it. -/
theorem outward_pred {d : Nat} (stays : ρ.Stays (marks[d - 1]?.getD false)) :
    ρ.outward marks (d - 1) = ρ.outward marks d - 1 := by
  cases d with
  | zero => rw [outward_zero]
  | succ d =>
    have here : ρ.Stays (marks[d]?.getD false) := stays
    rw [outward_succ here, Nat.add_sub_cancel, Nat.add_sub_cancel]

theorem superMethod_matches (unreserved : ρ.Unreserved) {r r' : Reference}
    (refers : ρ.Refers marks r r') (stays : ρ.StaysInside marks r) {name name' : Token}
    (same : ρ.Agrees name name') :
    ρ.Matches w marks ρ.ValueAlike (superMethod r name) (superMethod r' name') := by
  apply Matches.inspect
  intro m m' alike
  dsimp only
  rw [alike.depths, alike.depths', refers.depth, same.lexeme]
  cases recorded : ρ.depths[r.id]? with
  | none => exact .fail .same refers.name.line
  | some d =>
    have parent := alike.store.getAt?_word unreserved alike.chain .super_ d (refers.stays recorded)
    have receiver :=
      alike.store.getAt?_word unreserved alike.chain .this_ (d - 1) (stays d recorded)
    rw [outward_pred (stays d recorded)] at receiver
    apply (Matches.ofOption parent .same refers.name.line).bind
    intro w₁ above above' grown₁ parents
    have receiver₁ := optionRel_mono (fun _ _ value => ValueAlike.grown grown₁ value) receiver
    apply (Matches.ofOption receiver₁ .same refers.name.line).bind
    intro w₂ object object' grown₂ objects
    cases parents with
    | class_ classes =>
      cases objects with
      | @instance_ i i' id own =>
        dsimp only
        have method := (classes.grown grown₂).methods name.lexeme
        generalize Class.findMethod? _ name.lexeme = found at *
        generalize Class.findMethod? _ name.lexeme = found' at *
        cases method with
        | none => exact .fail .same same.line
        | some methods =>
          apply (bindMethod_matches methods id own).bind
          exact fun w' f f' _ bound => .pure (.function bound)
      | _ => exact .fail .same refers.name.line
    | _ => exact .fail .same refers.name.line

end Objects

end Comparison
end LoxLang
