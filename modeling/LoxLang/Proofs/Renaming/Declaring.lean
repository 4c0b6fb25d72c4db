import LoxLang.Proofs.Renaming.Machine

/-! Declarations on two machines that are alike up to a renaming. A function and the methods of a class
are closed over frames of the scopes that their declarations stand in. A class
is assigned to its name in the scope that has just declared it, so the name is not looked for further
out, where a scope might change it. -/
namespace LoxLang
namespace Comparison
open Grammar Eval Renaming

variable {ρ : Comparison} {w : Layout} {marks : List Bool} {marked : Bool}

section Tables
variable {α : Type} {R : α → α → Prop}

/-- Tables of pairs that are related have related entries, under names that the key keeps apart. -/
theorem ofList_related (key : String → String) (fresh : String → Prop)
    (apart : ∀ a b, fresh a → fresh b → key a = key b → a = b)
    {pairs pairs' : List (String × α)}
    (related : List.Forall₂ (fun p p' => fresh p.1 ∧ p'.1 = key p.1 ∧ R p.2 p'.2) pairs pairs')
    {name : String} (free : fresh name) :
    Option.Rel R ((Table.ofList pairs).get? name) ((Table.ofList pairs').get? (key name)) := by
  have folded (t t' : Table α)
      (before : Option.Rel R (t.get? name) (t'.get? (key name))) :
      Option.Rel R ((pairs.foldl (fun t pair => t.set pair.1 pair.2) t).get? name)
        ((pairs'.foldl (fun t pair => t.set pair.1 pair.2) t').get? (key name)) := by
    induction related generalizing t t' with
    | nil => exact before
    | @cons p p' rest rest' here _ ih =>
      obtain ⟨own, same, value⟩ := here
      apply ih
      simp only [Table.get?_set, same]
      by_cases named : name = p.1
      · rw [if_pos named, if_pos (congrArg key named)]
        exact .some value
      · rw [if_neg named, if_neg fun keys => named (apart _ _ free own keys)]
        exact before
  exact folded [] [] .none

/-- So have tables of pairs with the same names. -/
theorem ofList_alike {pairs pairs' : List (String × α)}
    (related : List.Forall₂ (fun p p' => p'.1 = p.1 ∧ R p.2 p'.2) pairs pairs') (name : String) :
    Option.Rel R ((Table.ofList pairs).get? name) ((Table.ofList pairs').get? name) :=
  ofList_related id (fun _ => True) (fun _ _ _ _ => id)
    (related.imp fun _ _ both => ⟨trivial, both⟩) trivial

end Tables

/-- A function stands in the scopes around its declaration. -/
theorem defineFunction_matches {d d' : Declaration}
    (becomes : ρ.Becomes (marks.headD false) d.name d'.name)
    (routine : ρ.Alike marks (.routine d) (.routine d')) :
    ρ.Matches w marks Anything (defineFunction d) (defineFunction d') := by
  apply Matches.currentFrame.bind
  intro w₁ closure closure' _ chain
  have made : ρ.Matches w₁ marks (fun w => ρ.FunctionAlike w [])
      (onStore fun s => s.newFunction d closure false)
      (onStore fun s => s.newFunction d' closure' false) := by
    apply Matches.onStore_within
    intro s s' alike
    exact ⟨alike.newFunction d d' closure closure' false, congrArg FunctionId.mk alike.functions, rfl,
      marks, chain, nofun, routine⟩
  apply made.bind
  exact fun w₂ f f' _ functions => define_matches becomes (.function functions)

theorem superclass_matches {clause clause' : Option Reference}
    (parent : Option.Rel (ρ.Refers marks) clause clause') :
    ρ.Matches w marks (fun w c c' => Option.Rel (ρ.ClassAlike w) c c' ∧ c.isSome = clause.isSome)
      (Eval.superclass clause) (Eval.superclass clause') := by
  cases parent with
  | none => exact .pure ⟨.none, rfl⟩
  | some refers =>
    apply (lookUp_matches refers).bind
    intro w₁ v v' _ value
    cases value with
    | class_ classes => exact .pure ⟨.some classes, rfl⟩
    | _ => exact .fail .same refers.name.line

/-- The marks around the methods of a class, outside of the scope of `this`. -/
def outsideMethods (derived : Bool) (marks : List Bool) : List Bool :=
  if derived then false :: marks else marks

theorem insideClass_eq (clause : Option Reference) (marks : List Bool) :
    insideClass clause marks = false :: outsideMethods clause.isSome marks := by
  cases clause <;> rfl

theorem methodFrame_matches {c c' : Option Class} (parents : Option.Rel (ρ.ClassAlike w) c c') :
    ρ.Matches w marks (ρ.SameScopes (outsideMethods c.isSome marks)) (methodFrame c)
      (methodFrame c') := by
  cases parents with
  | none => exact .currentFrame
  | some classes =>
    apply Matches.currentFrame.bind
    intro w₁ frame frame' grown chain
    exact .newFrame chain stays_false (bindingsAlike_single "super" (.class_ (classes.grown grown)))

theorem closeMethods_matches {ds ds' : List Declaration}
    (methods : ρ.Alike (false :: marks) (.routines ds) (.routines ds')) :
    ρ.Matches w marks
      (fun w => List.Forall₂ fun p p' => p'.1 = p.1 ∧ ρ.MethodAlike w p.2 p'.2)
      (closeMethods ds) (closeMethods ds') := by
  induction ds generalizing ds' w with
  | nil =>
    cases methods
    exact .pure .nil
  | cons d rest ih =>
    cases methods with
    | @moreRoutines _ _ d' _ rest' first others =>
    have same : d'.name.lexeme = d.name.lexeme := by
      cases first with
      | routine _ same _ _ => exact same.lexeme
    let isInitializer : Bool := d.name.lexeme = initializerName
    unfold closeMethods
    rw [same]
    apply Matches.currentFrame.bind
    intro w₁ closure closure' _ chain
    have made : ρ.Matches w₁ marks ρ.MethodAlike
        (onStore fun s => s.newFunction d closure isInitializer)
        (onStore fun s => s.newFunction d' closure' isInitializer) := by
      apply Matches.onStore_within
      intro s s' alike
      exact ⟨alike.newFunction d d' closure closure' isInitializer,
        congrArg FunctionId.mk alike.functions, rfl, marks, chain, fun _ => stays_false, first⟩
    apply made.bind
    intro w₂ f f' _ own
    apply (ih others).bind
    intro w₃ closed closed' grown later
    exact .pure (.cons ⟨rfl, own.grown grown⟩ later)

/-- Classes are alike if their own methods and their superclasses are. -/
theorem classAlike_of {c c' : Class} (id : c'.id = c.id) (name : c'.name = c.name)
    (own : ∀ name, Option.Rel (ρ.MethodAlike w) (c.methods.get? name) (c'.methods.get? name))
    (inherited : Option.Rel (ρ.ClassAlike w) c.superclass c'.superclass) : ρ.ClassAlike w c c' := by
  refine ⟨id, name, fun key => ?_⟩
  have here := own key
  obtain ⟨_, _, parent, methods⟩ := c
  obtain ⟨_, _, parent', methods'⟩ := c'
  rw [Class.findMethod?.eq_def, Class.findMethod?.eq_def ⟨_, _, parent', methods'⟩]
  dsimp only at here inherited ⊢
  generalize methods.get? key = found at *
  generalize methods'.get? key = found' at *
  cases here with
  | some method => exact .some method
  | none =>
    cases inherited with
    | none => exact .none
    | some classes => exact classes.methods key

theorem closeClass_matches {c c' : Option Class} (parents : Option.Rel (ρ.ClassAlike w) c c')
    {ds ds' : List Declaration} (methods : ρ.Alike (false :: marks) (.routines ds) (.routines ds'))
    (name : String) :
    ρ.Matches w marks ρ.ClassAlike (closeClass name c ds) (closeClass name c' ds') := by
  apply (closeMethods_matches methods).bind
  intro w₁ closed closed' grown own
  apply Matches.onStore_within
  intro s s' stores
  refine ⟨stores.newClass name c c' (.ofList closed) (.ofList closed'), classAlike_of ?_ rfl ?_ ?_⟩
  · exact congrArg ClassId.mk stores.classes
  · exact ofList_alike own
  · exact optionRel_mono (fun _ _ classes => classes.grown grown) parents

/-- The methods of a class stand in the scopes around it and, if it has a superclass, in one for `super`. -/
theorem makeClass_matches {c c' : Option Class} (parents : Option.Rel (ρ.ClassAlike w) c c')
    {ds ds' : List Declaration}
    (methods : ρ.Alike (false :: outsideMethods c.isSome marks) (.routines ds) (.routines ds'))
    (name : String) :
    ρ.Matches w marks ρ.ClassAlike (makeClass name c ds) (makeClass name c' ds') := by
  rw [makeClass_eq, makeClass_eq]
  apply (methodFrame_matches parents).bind
  intro w₁ frame frame' grown chain
  have parents₁ := optionRel_mono (fun _ _ classes => ClassAlike.grown grown classes) parents
  exact .inFrame chain (closeClass_matches parents₁ methods name)

/-- A name that the current frame binds is assigned there. -/
theorem assignNearest_of_binds {m : Machine} {name : Token}
    (bound : m.store.binds m.current name.lexeme) (v : Value) :
    assignNearest name v m = .ok () { m with store := m.store.define m.current name.lexeme v } := by
  have held : m.store.holder? m.current name.lexeme = some m.current := by
    simp [Store.holder?, Store.holderWithin?, bound]
  have written : onStore (fun s => s.assign m.current name.lexeme v) m =
      .ok true { m with store := m.store.define m.current name.lexeme v } := by
    simp only [onStore, Store.assign_eq, held, Store.overwrite]
  change overwrite name (fun s => s.assign m.current name.lexeme v) m = _
  unfold overwrite
  rw [bind_of_ok written]
  rfl

theorem assignNearest_pairs {m m' : Machine} (alike : ρ.MachinesAlike w marks m m')
    {name name' : Token} (becomes : ρ.Becomes (marks.headD false) name name')
    (bound : m.store.binds m.current name.lexeme) {v v' : Value} (value : ρ.ValueAlike w v v') :
    Pairs (assignNearest name v) (assignNearest name' v') m m' (ρ.ResultsAlike w marks Anything)
      (ρ.FailuresAlike w marks) := by
  have bound' : m'.store.binds m'.current name'.lexeme := by
    rw [becomes.lexeme, alike.store.binds (alike.chain.head_twins becomes.stays) becomes.fresh]
    exact bound
  have defined := define_matches becomes value m m' alike
  unfold Pairs at defined ⊢
  rw [assignNearest_of_binds bound, assignNearest_of_binds bound']
  exact defined

/-- The name of a class is bound from before its methods are closed until the class is assigned. -/
theorem defineClass_matches {name name' : Token} {clause clause' : Option Reference}
    {ds ds' : List Declaration} (same : ρ.Agrees name name')
    (becomes : ρ.Becomes (marks.headD false) name name')
    (parent : Option.Rel (ρ.Refers marks) clause clause')
    (methods : ρ.Alike (insideClass clause marks) (.routines ds) (.routines ds')) :
    ρ.Matches w marks Anything (defineClass name clause ds) (defineClass name' clause' ds') := by
  rw [insideClass_eq] at methods
  apply (superclass_matches parent).bind
  rintro w₁ c c' _ ⟨parents, derived⟩ m m' alike
  have there : m.current.index < m.store.frames.size := alike.store.size ▸ alike.chain.there
  apply Matches.bind_ended (define_matches becomes .nil m m' alike)
  intro w₂ _ named _ named' naming grown₂ alike₂ _
  have bound : named.store.binds named.current name.lexeme := by
    cases naming
    exact Store.binds_define there name.lexeme .nil
  have parents₂ := optionRel_mono (fun _ _ classes => ClassAlike.grown grown₂ classes) parents
  rw [← derived] at methods
  rw [same.lexeme]
  have made : ρ.Matches w₂ marks ρ.ClassAlike (makeClass name.lexeme c ds) (makeClass name.lexeme c' ds') :=
    makeClass_matches parents₂ methods name.lexeme
  apply Matches.bind_ended (made named named' alike₂)
  intro w₃ cls after cls' after' making _ alike₃ classes
  have restored := (restored_steady.calm.makeClass name.lexeme c ds named).ok_of making
  have growing := (growing_steady.calm.makeClass name.lexeme c ds named).ok_of making
  have still : after.store.binds after.current name.lexeme := by
    rw [restored.current]
    exact growing.binds _ _ bound
  exact assignNearest_pairs alike₃ becomes still (.class_ classes)

end Comparison
end LoxLang
