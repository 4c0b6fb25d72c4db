import LoxLang.Proofs.Scope.Visit
import Mathlib.Data.List.Nodup

/-! A walk in which no two references share an identity. A visit deals with its references in the midst of
the whole walk: nothing is recorded for them before it, and nothing that it records is overwritten after
it. So the walk comes to locate each reference once, and what it finds there is what remains. -/
namespace LoxLang.Scope

/-- However this walk ends, it leaves the records alone but for those of these references. -/
def Spares (rs : List Reference) (walk : Walk Unit) : Prop :=
  ∀ (s : State) (id : NodeId), id ∉ rs.map Reference.id →
    Ends walk s (fun _ last => last.depths[id]? = s.depths[id]?) fun _ last =>
      last.depths[id]? = s.depths[id]?

namespace Spares

variable {rs rs' : List Reference} {walk first second : Walk Unit}

theorem of_part (part : Part) : Spares part.references part.walk := by
  intro s id foreign
  have kept {last : State} (recorded : Recorded ⟨part, s⟩ last) : last.depths[id]? = s.depths[id]? := by
    rcases recorded id with same | ⟨r, _, reached, rfl⟩
    · exact same
    · exact absurd (List.mem_map_of_mem (reached_references reached (List.mem_singleton_self r))) foreign
  exact Ends.mono (part_covers part s) (fun _ _ covered => kept covered.recorded) fun _ _ => kept

theorem of_still (still : Still walk) : Spares [] walk := by
  intro s id _
  exact (still s).mono (fun _ _ kept => by rw [kept.1]) fun _ _ same => by rw [same]

theorem bind (one : Spares rs first) (two : Spares rs' second) :
    Spares (rs ++ rs') (first >>= fun _ => second) := by
  intro s id foreign
  rw [List.map_append, List.mem_append, not_or] at foreign
  apply Ends.bind (one s id foreign.1)
  intro _ middle _ same
  exact (two middle id foreign.2).mono (fun _ _ later => later.trans same) fun _ _ later => later.trans same

theorem inside (inner : Spares rs walk) : Spares rs (inside walk) := by
  intro s id foreign
  apply Ends.of_eq _ (inside_eq walk s)
  apply (inner s.opened id foreign).bind
  intro _ last _ same
  exact same

theorem insideClass (inner : Spares rs walk) (clause : Option Reference) :
    Spares rs (insideClass clause walk) := by
  have withThis : Spares rs (Scope.inside do mark "this" true; walk) :=
    ((of_still (.mark _ _)).bind inner).inside
  cases clause with
  | none => exact withThis
  | some _ => exact ((of_still (.mark _ _)).bind withThis).inside

theorem ended (spares : Spares rs walk) {s next : State} (ended : walk s = .ok () next) {id : NodeId}
    (foreign : id ∉ rs.map Reference.id) : next.depths[id]? = s.depths[id]? :=
  (spares s id foreign).ok_of ended

end Spares

/-- The second visit deals with references of its own in the midst of the first one: nothing is recorded
for them on the way to it, and what it records stays until the first visit ends. -/
structure Midst (outer inner : Visit) : Prop where
  apart : (inner.part.references.map Reference.id).Nodup
  before : ∀ id ∈ inner.part.references.map Reference.id,
    inner.state.depths[id]? = outer.state.depths[id]?
  after : ∃ rest : Walk Unit,
    outer.part.walk outer.state = (do inner.part.walk; rest : Walk Unit) inner.state ∧
    ∀ id ∈ inner.part.references.map Reference.id, ∀ s,
      Ends rest s (fun _ last => last.depths[id]? = s.depths[id]?) fun _ last =>
        last.depths[id]? = s.depths[id]?

namespace Midst

variable {outer inner : Visit} {done more : List Reference} {rest : Walk Unit}

theorem middle (apart : (outer.part.references.map Reference.id).Nodup)
    (whole : outer.part.references = done ++ (inner.part.references ++ more))
    (before : ∀ id : NodeId, id ∉ done.map Reference.id →
      inner.state.depths[id]? = outer.state.depths[id]?)
    (resumes : outer.part.walk outer.state = (do inner.part.walk; rest : Walk Unit) inner.state)
    (after : Spares more rest) : Midst outer inner := by
  rw [whole, List.map_append, List.map_append, List.nodup_append, List.nodup_append] at apart
  obtain ⟨_, ⟨own, _, distinct⟩, distinct'⟩ := apart
  refine ⟨own, ?_, rest, resumes, ?_⟩
  · intro id member
    exact before id fun earlier => distinct' id earlier id (List.mem_append_left _ member) rfl
  · intro id member s
    exact after s id fun later => distinct id member id later rfl

theorem first (apart : (outer.part.references.map Reference.id).Nodup)
    (whole : outer.part.references = inner.part.references ++ more)
    (before : inner.state.depths = outer.state.depths)
    (resumes : outer.part.walk outer.state = (do inner.part.walk; rest : Walk Unit) inner.state)
    (after : Spares more rest) : Midst outer inner :=
  @middle outer inner [] more rest apart whole (fun _ _ => by rw [before]) resumes after

theorem last (apart : (outer.part.references.map Reference.id).Nodup)
    (whole : outer.part.references = done ++ inner.part.references)
    (before : ∀ id : NodeId, id ∉ done.map Reference.id →
      inner.state.depths[id]? = outer.state.depths[id]?)
    (resumes : outer.part.walk outer.state = inner.part.walk inner.state) : Midst outer inner := by
  have whole' : outer.part.references = done ++ (inner.part.references ++ []) := by
    rw [List.append_nil]
    exact whole
  apply middle apart whole' before _ (.of_still Still.pure)
  rw [bind_pure_unit]
  exact resumes

theorem only (apart : (outer.part.references.map Reference.id).Nodup)
    (whole : outer.part.references = inner.part.references)
    (before : inner.state.depths = outer.state.depths)
    (resumes : outer.part.walk outer.state = inner.part.walk inner.state) : Midst outer inner :=
  @last outer inner [] apart whole (fun _ _ => by rw [before]) resumes

theorem refl (apart : (outer.part.references.map Reference.id).Nodup) : Midst outer outer :=
  only apart rfl rfl rfl

theorem trans {middle : Visit} (one : Midst outer middle) (two : Midst middle inner)
    (within : inner.part.references ⊆ middle.part.references) : Midst outer inner := by
  obtain ⟨rest, resumes, spared⟩ := one.after
  obtain ⟨rest', resumes', spared'⟩ := two.after
  have ids : inner.part.references.map Reference.id ⊆ middle.part.references.map Reference.id :=
    List.map_subset _ within
  refine ⟨two.apart, ?_, (do rest'; rest), ?_, ?_⟩
  · intro id member
    exact (two.before id member).trans (one.before id (ids member))
  · rw [resumes, ← bind_assoc]
    change EStateM.bind _ _ _ = EStateM.bind _ _ _
    unfold EStateM.bind
    rw [resumes']
  · intro id member s
    apply Ends.bind (spared' id member s)
    intro _ last _ same
    exact (spared id (ids member) last).mono (fun _ _ later => later.trans same)
      fun _ _ later => later.trans same

end Midst

/-- A visit comes to another in the midst of its own walk. -/
theorem Comes.midst {outer inner : Visit} (comes : Comes outer inner)
    (apart : (outer.part.references.map Reference.id).Nodup) : Midst outer inner := by
  -- by whether the walk has other parts before this one, behind it, on both sides or on neither
  cases comes with
  | grouping | unary | getObject | expression | printed | «variable» | given =>
    exact .only apart rfl rfl rfl
  | binaryLeft | logicalLeft => exact .first apart rfl rfl rfl (.of_part (.expr _ _))
  | binaryRight ended | logicalRight ended =>
    exact .last apart rfl (fun _ => (Spares.of_part (.expr _ _)).ended ended) (bind_of_ok ended)
  | condition => exact .first apart rfl rfl rfl ((Spares.of_part (.expr _ _)).bind (.of_part (.expr _ _)))
  | thenValue ended =>
    exact .middle apart rfl (fun _ => (Spares.of_part (.expr _ _)).ended ended) (bind_of_ok ended)
      (.of_part (.expr _ _))
  | @elseValue context test thenBranch _ s _ last first second =>
    have both : (do walkExpr context test; walkExpr context thenBranch : Walk Unit) s = .ok () last :=
      (bind_of_ok first).trans second
    exact .last apart (List.append_assoc _ _ _).symm
      (fun _ => ((Spares.of_part (.expr _ _)).bind (.of_part (.expr _ _))).ended both)
      ((bind_of_ok first).trans (bind_of_ok second))
  | allowed free => exact .only apart rfl rfl ((readVariable_eq _ _).trans (if_neg free))
  | assigned => exact .first apart rfl rfl rfl (.of_part (.locate _))
  | target ended => exact .last apart rfl (fun _ => (Spares.of_part (.expr _ _)).ended ended) (bind_of_ok ended)
  | callee => exact .first apart rfl rfl rfl (.of_part (.exprs _ _))
  | «arguments» ended =>
    exact .last apart rfl (fun _ => (Spares.of_part (.expr _ _)).ended ended) (bind_of_ok ended)
  | setValue => exact .first apart rfl rfl rfl (.of_part (.expr _ _))
  | setObject ended =>
    exact .last apart rfl (fun _ => (Spares.of_part (.expr _ _)).ended ended) (bind_of_ok ended)
  | @this context r s inside =>
    obtain ⟨kind, known⟩ := Option.ne_none_iff_exists'.mp inside
    have resumes : readThis context r s = locate r s := by rw [readThis, known]
    exact .only apart rfl rfl resumes
  | @super context r _ s inside =>
    have resumes : readSuper context r s = locate r s := by rw [readSuper, inside]
    exact .only apart rfl rfl resumes
  | firstValue => exact .first apart rfl rfl rfl (.of_part (.exprs _ _))
  | laterValues ended =>
    exact .last apart rfl (fun _ => (Spares.of_part (.expr _ _)).ended ended) (bind_of_ok ended)
  | @named name r s next checked =>
    have resumes : walkSuperclass name (some r) s = readVariable r next := by
      rw [walkSuperclass_eq, bind_of_ok checked]
    exact .only apart rfl ((Still.checkSuperclass name r).ended checked) resumes
  | initializer declared =>
    exact .first apart (List.append_nil _).symm ((Still.declare _).ended declared) (bind_of_ok declared)
      (.of_still (.mark _ _))
  | block => exact .first apart (List.append_nil _).symm rfl (inside_eq _ _) (.of_still .close)
  | @test _ _ _ elseBranch =>
    cases elseBranch with
    | none => exact .first apart rfl rfl rfl (.of_part (.stmt _ _))
    | some _ => exact .first apart rfl rfl rfl ((Spares.of_part (.stmt _ _)).bind (.of_part (.stmt _ _)))
  | @thenBranch _ _ _ elseBranch _ _ ended =>
    cases elseBranch with
    | none => exact .last apart rfl (fun _ => (Spares.of_part (.expr _ _)).ended ended) (bind_of_ok ended)
    | some _ =>
      exact .middle apart rfl (fun _ => (Spares.of_part (.expr _ _)).ended ended) (bind_of_ok ended)
        (.of_part (.stmt _ _))
  | @elseBranch context test thenBranch _ s _ last first second =>
    have both : (do walkExpr context test; walkStmt context thenBranch : Walk Unit) s = .ok () last :=
      (bind_of_ok first).trans second
    exact .last apart (List.append_assoc _ _ _).symm
      (fun _ => ((Spares.of_part (.expr _ _)).bind (.of_part (.stmt _ _))).ended both)
      ((bind_of_ok first).trans (bind_of_ok second))
  | round => exact .first apart rfl rfl rfl (.of_part (.stmt _ _))
  | roundBody ended =>
    exact .last apart rfl (fun _ => (Spares.of_part (.expr _ _)).ended ended) (bind_of_ok ended)
  | function introduced =>
    exact .only apart rfl ((Still.introduce _).ended introduced) (bind_of_ok introduced)
  | returned checked =>
    exact .only apart rfl ((Still.checkReturn _ _ _).ended checked) (bind_of_ok checked)
  | parent introduced =>
    exact .first apart rfl ((Still.introduce _).ended introduced) (bind_of_ok introduced)
      ((Spares.of_part (.methods _ _)).insideClass _)
  | @methods context name clause methods s next last introduced ended =>
    have before (id : NodeId) (foreign : id ∉ clause.toList.map Reference.id) :
        (last.inClass clause).depths[id]? = s.depths[id]? := by
      rw [State.inClass_depths, (Spares.of_part (.superclass name clause)).ended ended foreign,
        (Still.introduce name).ended introduced]
    have whole : clause.toList ++ Declaration.referencesOf methods =
        clause.toList ++ (Declaration.referencesOf methods ++ []) := by rw [List.append_nil]
    exact .middle apart whole before
      ((bind_of_ok introduced).trans ((bind_of_ok ended).trans (insideClass_eq clause _ last)))
      (.of_still (.closeClass clause))
  | firstStatement => exact .first apart rfl rfl rfl (.of_part (.stmts _ _))
  | laterStatements ended =>
    exact .last apart rfl (fun _ => (Spares.of_part (.stmt _ _)).ended ended) (bind_of_ok ended)
  | @body context kind name parameters body s next introduced =>
    let resumed : Walk Unit := walkStmts { context with body := some kind } body
    have resumes : inside (do introduceAll parameters; resumed) s = (do resumed; close : Walk Unit) next := by
      rw [inside_eq, bind_assoc, bind_of_ok introduced]
    have still := Still.ended (s := s.opened) (.introduceAll parameters) introduced
    exact .first apart (List.append_nil _).symm still resumes
      (.of_still .close)
  | firstMethod => exact .first apart rfl rfl rfl (.of_part (.methods _ _))
  | laterMethods ended =>
    exact .last apart rfl (fun _ => (Spares.of_part (.routine _ _ _)).ended ended) (bind_of_ok ended)

theorem disjoint_of_apart {rs rs' : List Reference} (apart : ((rs ++ rs').map Reference.id).Nodup)
    {r : Reference} (here : r ∈ rs) : r ∉ rs' := by
  intro there
  rw [List.map_append, List.nodup_append] at apart
  exact apart.2.2 r.id (List.mem_map_of_mem here) r.id (List.mem_map_of_mem there) rfl

/-- A reference belongs to at most one of the visits that a visit comes to. -/
theorem Comes.unique {outer first second : Visit} (one : Comes outer first) (two : Comes outer second)
    (apart : (outer.part.references.map Reference.id).Nodup) {r : Reference}
    (here : r ∈ first.part.references) (there : r ∈ second.part.references) : first = second := by
  cases one <;> cases two <;> first
    | rfl
    | grind [Part.references, Expr.references, Expr.referencesOf, ifReferences, Stmt.references,
        Stmt.referencesOf, Declaration.referencesOf, disjoint_of_apart]

open Relation

/-- What is come to on the way is dealt with in the midst of the whole visit. -/
theorem reached_midst {outer inner : Visit} (reached : ReflTransGen Comes outer inner)
    (apart : (outer.part.references.map Reference.id).Nodup) : Midst outer inner := by
  induction reached with
  | refl => exact .refl apart
  | tail _ comes ih => exact ih.trans (comes.midst ih.apart) comes.references

/-- The walk comes to locate a reference at most once. -/
theorem located_unique {outer : Visit} {r : Reference} {s s' : State}
    (apart : (outer.part.references.map Reference.id).Nodup)
    (one : ReflTransGen Comes outer ⟨.locate r, s⟩) (two : ReflTransGen Comes outer ⟨.locate r, s'⟩) :
    s = s' := by
  induction one using ReflTransGen.head_induction_on with
  | refl =>
    cases two.cases_head with
    | inl same => exact congrArg Visit.state same
    | inr later =>
      obtain ⟨_, comes, _⟩ := later
      cases comes
  | head comes reached ih =>
    rcases two.cases_head with same | ⟨_, comes', reached'⟩
    · subst same
      cases comes
    · have here := reached_references reached (List.mem_singleton_self r)
      have there := reached_references reached' (List.mem_singleton_self r)
      obtain rfl := comes.unique comes' apart here there
      exact ih (comes.midst apart).apart reached'

/-- When the walk comes to locate a reference, nothing is recorded for it that was not there before. -/
theorem unrecorded_of_reached {outer : Visit} {r : Reference} {s : State}
    (apart : (outer.part.references.map Reference.id).Nodup)
    (reached : ReflTransGen Comes outer ⟨.locate r, s⟩) :
    s.depths[r.id]? = outer.state.depths[r.id]? :=
  (reached_midst reached apart).before r.id (List.mem_singleton_self _)

/-- What the walk finds when it locates a reference is recorded for good. -/
theorem recorded_of_reached {outer : Visit} {r : Reference} {s : State}
    (apart : (outer.part.references.map Reference.id).Nodup)
    (reached : ReflTransGen Comes outer ⟨.locate r, s⟩) :
    let depth? := (s.scopes.findIdx? (·.contains r.name.lexeme)).or outer.state.depths[r.id]?
    Ends outer.part.walk outer.state (fun _ last => last.depths[r.id]? = depth?)
      fun _ last => last.depths[r.id]? = depth? := by
  intro depth?
  obtain ⟨rest, resumes, spared⟩ := (reached_midst reached apart).after
  have found : Ends (locate r) s (fun _ next => next.depths[r.id]? = depth?) fun _ _ => False := by
    cases here : s.scopes.findIdx? (·.contains r.name.lexeme) with
    | none =>
      refine .of_ok (locate_none here) ?_
      simp only [depth?, here, Option.none_or]
      exact unrecorded_of_reached apart reached
    | some depth =>
      refine .of_ok (locate_some here) ?_
      simp only [depth?, here, Option.some_or]
      exact Std.TreeMap.getElem?_insert_self
  apply Ends.of_eq _ resumes
  apply (found.mono (fun _ _ => id) fun _ _ => False.elim).bind
  intro _ next _ recorded
  exact (spared r.id (List.mem_singleton_self _) next).mono (fun _ _ same => same.trans recorded)
    fun _ _ same => same.trans recorded

/-- The walk over the whole program comes to this visit. -/
def Visited (program : List Stmt) (visit : Visit) : Prop :=
  ReflTransGen Comes ⟨.stmts .top program, .start⟩ visit

section Resolve

variable {program : List Stmt} {r : Reference} {s : State}

theorem resolve_of_ends (recorded : Depths → Prop)
    (ends : Ends (walkStmts .top program) .start (fun _ last => recorded last.depths)
      fun _ last => recorded last.depths) : recorded (resolve program).1 := by
  unfold resolve
  cases ended : walkStmts .top program .start with
  | ok _ last => exact ends.ok_of ended
  | error e last => exact ends.error_of ended

/-- What is recorded for a program was found by a visit. -/
theorem visited_of_recorded {id : NodeId} {d : Nat} (recorded : (resolve program).1[id]? = some d) :
    ∃ r s, Visited program ⟨.locate r, s⟩ ∧ r.id = id := by
  have ends := part_covers (.stmts .top program) .start
  have covered := resolve_of_ends (fun depths => Recorded ⟨.stmts .top program, .start⟩ ⟨[], depths, []⟩)
    (Ends.mono ends (fun _ _ covered => covered.recorded) fun _ _ recorded => recorded)
  rcases covered id with same | visited
  · rw [recorded] at same
    cases same
  · exact visited

/-- In a program without a fault every reference is located. -/
theorem visited_of_faultless (faultless : (resolve program).2 = [])
    (member : r ∈ Stmt.referencesOf program) : ∃ s, Visited program ⟨.locate r, s⟩ := by
  unfold resolve at faultless
  cases ended : walkStmts .top program .start with
  | ok _ last =>
    rw [ended] at faultless
    exact ((part_covers (.stmts .top program) .start).ok_of ended).located faultless r member
  | error e last =>
    rw [ended] at faultless
    cases List.append_ne_nil_of_right_ne_nil _ (List.cons_ne_nil _ _) faultless

namespace Visited

theorem listed (visited : Visited program ⟨.locate r, s⟩) : r ∈ Stmt.referencesOf program :=
  reached_references visited (List.mem_singleton_self r)

variable (apart : ((Stmt.referencesOf program).map Reference.id).Nodup)
include apart

/-- Nothing is recorded for a reference when the walk comes to locate it. -/
theorem unrecorded (visited : Visited program ⟨.locate r, s⟩) : s.depths[r.id]? = none := by
  rw [@unrecorded_of_reached ⟨.stmts .top program, .start⟩ r s apart visited]
  exact Std.TreeMap.getElem?_emptyc

/-- What the walk finds when it comes to locate a reference is what is recorded for the program. -/
theorem recorded (visited : Visited program ⟨.locate r, s⟩) :
    (resolve program).1[r.id]? = s.scopes.findIdx? (·.contains r.name.lexeme) := by
  have fresh : State.start.depths[r.id]? = none := Std.TreeMap.getElem?_emptyc
  have ends := @recorded_of_reached ⟨.stmts .top program, .start⟩ r s apart visited
  dsimp only at ends
  rw [fresh, Option.or_none] at ends
  exact resolve_of_ends (fun depths => depths[r.id]? = s.scopes.findIdx? (·.contains r.name.lexeme)) ends

/-- The walk comes only once to locate a reference with this identity. -/
theorem unique {r' : Reference} {s' : State} (visited : Visited program ⟨.locate r, s⟩)
    (visited' : Visited program ⟨.locate r', s'⟩) (same : r'.id = r.id) : r' = r ∧ s' = s := by
  obtain rfl := List.inj_on_of_nodup_map apart visited'.listed visited.listed same
  exact ⟨rfl, @located_unique ⟨.stmts .top program, .start⟩ r' s' s apart visited' visited⟩

end Visited

end Resolve

end LoxLang.Scope
