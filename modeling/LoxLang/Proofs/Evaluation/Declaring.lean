import LoxLang.Proofs.Evaluation.Upkeep

/-! Declarations keep the store sound: a function is closed over the frame it is declared in, and the
methods of a class over that frame or, if the class has a superclass, over the frame for `super` just
inside it. -/
namespace LoxLang.Eval.Run
open Scope

variable {run : Run} {m : Machine} {levels : List Level} {scopes : List Activation} {fuel : Nat}

theorem methodsOccurrences_subset {d : Declaration} {methods : List Declaration} (member : d ∈ methods) :
    declarationOccurrences levels d ⊆ methodsOccurrences levels methods := by
  induction methods with
  | nil => cases member
  | cons first rest ih =>
    rcases List.mem_cons.mp member with rfl | later
    · exact List.subset_append_left _ _
    · exact List.subset_append_of_subset_right _ (ih later)

theorem undeclared {s : Stmt} {P : Token → Prop} (plain : s.declared? = none) :
    ∀ t, s.declared? = some t → P t := by
  intro t declared
  rw [plain] at declared
  cases declared

theorem declared_function (d : Declaration) : Stmt.declared? (.function d) = some d.name := by
  cases d
  rfl

/-- A function is ready inside its own declaration. -/
theorem defineFunction_gives {d : Declaration} (sound : run.StoreSound m.store)
    (free : d.name.Unreserved)
    (here : run.Opened ⟨fuel + 1, .execute (.function d), m⟩ scopes)
    (mirrored : Mirrored run.first.globals m.store levels scopes m.current)
    (included : stmtOccurrences levels (.function d) ⊆ occurrences run.program) :
    run.Gives (defineFunction d) m fun _ after => after.store.binds m.current d.name.lexeme := by
  let made := m.store.newFunction d m.current false
  have there : m.current.index < made.2.frames.size := mirrored.there
  have counting : m.store.Kept made.2 := .of_frames rfl (Nat.le_refl _)
  have kept : m.store.Kept (made.2.define m.current d.name.lexeme (.function made.1)) :=
    counting.trans (.define made.2 m.current free (.function made.1))
  have bound (t : Token) (declared : Stmt.declared? (.function d) = some t) :
      (made.2.define m.current d.name.lexeme (.function made.1)).binds m.current t.lexeme := by
    rw [declared_function] at declared
    cases declared
    exact Store.binds_define there d.name.lexeme (.function made.1)
  have ready := (mirrored.grown kept).behind bound
  have value : run.FunctionSound (made.2.define m.current d.name.lexeme (.function made.1)) made.1 :=
    ⟨_, _, .declared here, ready, included⟩
  have counted : run.Gives (onStore fun s => s.newFunction d m.current false) m fun f after =>
      f = made.1 ∧ after = { m with store := made.2 } :=
    ⟨counting, sound.newFunction d m.current false, rfl, rfl⟩
  apply (currentFrame_gives sound).bind
  rintro _ _ _ _ ⟨rfl, rfl⟩
  apply counted.bind
  rintro _ _ _ kept ⟨rfl, rfl⟩
  exact define_gives kept free value there

theorem superclass_gives (sound : run.StoreSound m.store) (clause : Option Reference) :
    run.Gives (superclass clause) m fun parent after => m = after ∧ parent.isSome = clause.isSome ∧
      ∀ c ∈ parent, run.ClassSound m.store c := by
  cases clause with
  | none => exact .pure sound ⟨rfl, rfl, nofun⟩
  | some r =>
    apply (lookUp_gives sound r).bind
    rintro v _ _ _ ⟨rfl, value⟩
    split
    · next c =>
      refine .pure sound ⟨rfl, rfl, ?_⟩
      rintro _ ⟨⟩
      exact value
    · exact .throw _

/-- The levels around the methods of a class, outside of the one for `this`. -/
def outsideMethods (derived : Bool) (methods : List Declaration) (levels : List Level) : List Level :=
  if derived then ⟨.parent methods, [("super", true)]⟩ :: levels else levels

theorem classLevels_eq (clause : Option Reference) (methods : List Declaration) (levels : List Level) :
    classLevels clause methods levels =
      ⟨.receiver methods, [("this", true)]⟩ :: outsideMethods clause.isSome methods levels := by
  cases clause <;> rfl

/-- The methods are closed over a frame that mirrors the levels around them. -/
theorem methodFrame_gives {parent : Option Class} (methods : List Declaration)
    (sound : run.StoreSound m.store)
    (mirrored : Mirrored run.first.globals m.store levels scopes m.current)
    (parents : ∀ c ∈ parent, run.ClassSound m.store c) :
    run.Gives (methodFrame parent) m fun frame after =>
      Mirrored run.first.globals after.store (outsideMethods parent.isSome methods levels)
        (aroundMethods methods frame parent scopes) frame := by
  cases parent with
  | none => exact .looked sound rfl mirrored
  | some c =>
    have value : run.ValueSound m.store (.class_ c) := parents c rfl
    refine ⟨.newFrame _ _ _, sound.newWord (some m.current) "super" value, ?_⟩
    have outside : Mirrored run.first.globals _ _ (.parent methods c ⟨m.store.frames.size⟩ :: scopes) _ :=
      mirrored.word rfl id
    exact outside

theorem closeMethods_gives {methods : List Declaration} (sound : run.StoreSound m.store) :
    run.Gives (closeMethods methods) m fun closed _ =>
      ∀ key f, (key, f) ∈ closed → f.name = key ∧ f.closure = m.current ∧ f.declaration ∈ methods := by
  induction methods generalizing m with
  | nil => exact .pure sound nofun
  | cons d rest ih =>
    have made : run.Gives (onStore fun s => s.newFunction d m.current (d.name.lexeme = initializerName)) m
        fun f after => m.current = after.current ∧ f.closure = m.current ∧ f.declaration = d :=
      ⟨.of_frames rfl (Nat.le_refl _), sound.newFunction d m.current (d.name.lexeme = initializerName),
        rfl, rfl, rfl⟩
    apply (currentFrame_gives sound).bind
    rintro _ _ _ _ ⟨rfl, rfl⟩
    apply made.bind
    rintro f _ _ kept ⟨same, closed, declared⟩
    apply (ih kept).bind
    intro others _ _ kept earlier
    refine .pure kept ?_
    intro key g member
    rcases List.mem_cons.mp member with here | later
    · cases here
      exact ⟨congrArg (·.name.lexeme) declared, closed, declared ▸ List.mem_cons_self⟩
    · obtain ⟨named, closed, member⟩ := earlier key g later
      exact ⟨named, closed.trans same.symm, List.mem_cons_of_mem _ member⟩

theorem classSound_of {s : Store} {c : Class}
    (own : ∀ name f, c.methods.get? name = some f → f.name = name ∧ run.MethodSound s f)
    (inherited : ∀ parent ∈ c.superclass, run.ClassSound s parent) : run.ClassSound s c := by
  intro name f found
  rcases Class.own_or_inherited found with got | ⟨parent, above, got⟩
  · exact own name f got
  · exact inherited parent above name f got

/-- A class is sound whose methods are closed over a frame that mirrors the levels around them. -/
theorem closeClass_gives {name : String} {parent : Option Class} {methods : List Declaration}
    (sound : run.StoreSound m.store)
    (mirrored : Mirrored run.first.globals m.store levels scopes m.current)
    (made : ∀ closed last, closeMethods methods m = .ok closed last →
      ∀ key f, (key, f) ∈ closed → run.MadeMethod f methods scopes)
    (included : methodsOccurrences (⟨.receiver methods, [("this", true)]⟩ :: levels) methods ⊆
      occurrences run.program)
    (parents : ∀ c ∈ parent, run.ClassSound m.store c) :
    run.Gives (closeClass name parent methods) m fun c after => run.ClassSound after.store c := by
  apply (closeMethods_gives sound).kept.bind
  rintro closed last closing sound₁ ⟨closes, kept₁⟩
  have own (key : String) (f : Function) (member : (key, f) ∈ closed) :
      f.name = key ∧ run.MethodSound last.store f := by
    obtain ⟨named, closure, declared⟩ := closes key f member
    refine ⟨named, methods, levels, scopes, made closed last closing key f member, ?_, ?_⟩
    · rw [closure]
      exact mirrored.grown kept₁
    · exact List.Subset.trans (methodsOccurrences_subset declared) included
  have counting : last.store.Kept (last.store.newClass name parent (.ofList closed)).2 :=
    .of_frames rfl (Nat.le_refl _)
  have classSound : run.ClassSound last.store (last.store.newClass name parent (.ofList closed)).1 :=
    classSound_of (fun key f found => own key f (Table.mem_of_get?_ofList found))
      fun c member => (parents c member).grown kept₁
  exact ⟨counting, sound₁.newClass name parent (.ofList closed), classSound.grown counting⟩

/-- The name of a class is bound before its methods are closed, so it is ready inside them. -/
theorem defineClass_gives {name : Token} {clause : Option Reference} {methods : List Declaration}
    (sound : run.StoreSound m.store) (free : name.Unreserved)
    (here : run.Opened ⟨fuel + 1, .execute (.class_ name clause methods), m⟩ scopes)
    (mirrored : Mirrored run.first.globals m.store levels scopes m.current)
    (included : stmtOccurrences levels (.class_ name clause methods) ⊆ occurrences run.program) :
    run.Gives (defineClass name clause methods) m fun _ after =>
      after.store.binds m.current name.lexeme := by
  apply (superclass_gives sound clause).bind
  rintro parent _ given _ ⟨rfl, derived, parents⟩
  have nil : run.ValueSound (m.store.define m.current name.lexeme .nil) .nil := trivial
  apply (define_gives sound free nil mirrored.there).kept.bind
  rintro _ named naming sound₁ ⟨bound, kept₁⟩
  have same₁ := (restored_steady.confined.define name .nil m).ok_of naming
  have ready : Mirrored run.first.globals named.store (behind (.class_ name clause methods) levels)
      scopes named.current := by
    rw [same₁.current]
    apply (mirrored.grown kept₁).behind
    rintro _ ⟨⟩
    exact bound
  have parents₁ (c : Class) (member : c ∈ parent) := (parents c member).grown kept₁
  have made : run.Gives (makeClass name.lexeme parent methods) named
      fun c after => run.ClassSound after.store c := by
    rw [makeClass_eq]
    apply (methodFrame_gives methods sound₁ ready parents₁).kept.bind
    rintro frame framed framing sound₂ ⟨outside, kept₂⟩
    have inside := (List.append_subset.mp included).2
    rw [classLevels_eq, ← derived] at inside
    apply Gives.inFrame
    refine closeClass_gives sound₂ outside ?_ inside fun c member => (parents₁ c member).grown kept₂
    intro closed last closing key f member
    exact .closed here ⟨m, named, framed, last, given, naming, framing, closing⟩ member
  apply made.kept.bind
  rintro c made _ sound₂ ⟨whole, kept₂⟩
  have assigned : run.Gives (assignNearest name (.class_ c)) made fun _ _ => True := by
    apply (currentFrame_gives sound₂).bind
    rintro frame _ _ _ ⟨_, rfl⟩
    simp only [Store.assign_eq]
    exact overwrite_gives sound₂ free (fun s => s.holder? frame name.lexeme) whole
  apply assigned.kept.mono
  rintro _ after ⟨_, kept₃⟩
  exact (kept₂.trans kept₃).binds _ _ bound

end LoxLang.Eval.Run
