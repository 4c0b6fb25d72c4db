import LoxLang.Proofs.Grammar.Building.Statement
import LoxLang.Proofs.Scope.Recording
import LoxLang.Program

/-! The depths that are recorded for a program are those of its lexical scopes: a program in which the
walk finds no fault has, for each of its references, the distance to the nearest level that declares
the name before it, and no depth where there is none. -/
namespace LoxLang.Scope
open Grammar

variable {levels : List Level} {low high : Nat} {context : Context}

/-- A name that is found and not pending is ready. -/
theorem Usable.ready {use : Use} {r : Reference} (usable : Usable levels)
    (ready : ∀ level ∈ levels.head?, level.names.get? r.name.lexeme ≠ some false) :
    Occurrence.Ready ⟨use, r, levels⟩ := by
  intro _ d found
  obtain ⟨bound, contains, _⟩ := List.findIdx?_eq_some_iff_getElem.mp found
  refine ⟨levels[d], List.getElem?_eq_getElem bound, ?_⟩
  obtain ⟨b, got⟩ := Option.isSome_iff_exists.mp contains
  cases b with
  | true => exact got
  | false =>
    cases d with
    | zero =>
      have head : levels[0] ∈ levels.head? := by
        rw [List.head?_eq_getElem?, List.getElem?_eq_getElem bound]
        rfl
      exact absurd got (ready _ head)
    | succ d =>
      have member : levels[d + 1] ∈ levels.tail := by
        rw [← List.getElem_tail (h := by simpa using Nat.lt_sub_of_add_lt bound)]
        exact List.getElem_mem _
      cases usable.outer _ member _ _ got

theorem locate_walks {use : Use} {r : Reference} (ready : Occurrence.Ready ⟨use, r, levels⟩) :
    Walks (locate r) levels levels r.id (r.id + 1) [⟨use, r, levels⟩] := by
  intro s here
  have same : s.scopes.findIdx? (·.contains r.name.lexeme) =
      Occurrence.depth? ⟨use, r, levels⟩ := by
    rw [here, List.findIdx?_map]
    rfl
  have self : r.id ≤ Occurrence.id ⟨use, r, levels⟩ ∧
      Occurrence.id ⟨use, r, levels⟩ < r.id + 1 := ⟨Nat.le_refl _, Nat.lt_succ_self _⟩
  cases found : Occurrence.depth? ⟨use, r, levels⟩ with
  | some depth =>
    refine .of_ok (locate_some (same.trans found)) ⟨here, List.prefix_refl _, ?_, ?_⟩
    · intro id outside
      have other : id ≠ r.id := by
        rintro rfl
        rcases outside with less | more
        · exact Nat.lt_irrefl _ less
        · exact Nat.not_succ_le_self _ more
      simp only [Std.TreeMap.getElem?_insert, Std.LawfulEqCmp.compare_eq_iff_eq]
      rw [if_neg (Ne.symm other)]
    · intro _ _ o member
      rw [List.mem_singleton.mp member]
      refine ⟨self, ?_, ready⟩
      rw [found]
      exact Std.TreeMap.getElem?_insert_self
  | none =>
    refine .of_ok (locate_none (same.trans found)) ⟨here, List.prefix_refl _, fun _ _ => rfl, ?_⟩
    intro _ fresh o member
    rw [List.mem_singleton.mp member]
    refine ⟨self, ?_, ready⟩
    rw [found]
    exact fresh _ (Nat.le_refl _) (Nat.lt_succ_self _)

theorem readVariable_walks {r : Reference} (usable : Usable levels) :
    Walks (readVariable r) levels levels r.id (r.id + 1) [⟨.read, r, levels⟩] := by
  intro s here
  have scopes : s.scopes.head?.bind (·.get? r.name.lexeme) =
      levels.head?.bind (·.names.get? r.name.lexeme) := by
    rw [here, List.head?_map]
    cases levels.head? <;> rfl
  have reading := readVariable_eq r s
  rw [scopes] at reading
  by_cases pending : levels.head?.bind (·.names.get? r.name.lexeme) = some false
  · rw [if_pos pending] at reading
    exact .of_error reading trivial
  · rw [if_neg pending] at reading
    have ready : Occurrence.Ready ⟨.read, r, levels⟩ := by
      apply usable.ready
      intro level head got
      rw [Option.mem_def.mp head] at pending
      exact pending got
    have walked := locate_walks ready s here
    unfold Ends at walked ⊢
    rw [reading]
    exact walked

/-- A reserved word is never pending. -/
theorem Usable.ready_word {use : Use} {r : Reference} (usable : Usable levels) {k : Keyword}
    (spelled : r.name.lexeme = k.spelling) : Occurrence.Ready ⟨use, r, levels⟩ := by
  apply usable.ready
  intro level head pending
  exact usable.pending level head _ pending k spelled

theorem readThis_walks {r : Reference} (usable : Usable levels)
    (spelled : r.name.lexeme = Keyword.spelling .this_) :
    Walks (readThis context r) levels levels r.id (r.id + 1) [⟨.this, r, levels⟩] := by
  unfold readThis
  split
  · exact .report _ _
  · exact locate_walks (usable.ready_word spelled)

theorem readSuper_walks {r : Reference} (usable : Usable levels)
    (spelled : r.name.lexeme = Keyword.spelling .super_) :
    Walks (readSuper context r) levels levels r.id (r.id + 1) [⟨.super, r, levels⟩] := by
  unfold readSuper
  split
  · exact .report _ _
  · exact .report _ _
  · exact locate_walks (usable.ready_word spelled)

theorem mark_walks (name : String) (ready : Bool) :
    Walks (mark name ready) levels (markIn name ready levels) low high [] := by
  apply Walks.of_step
  intro s here
  cases levels with
  | nil =>
    have ended : mark name ready s = .ok () s := by simp only [mark, here, List.map_nil]
    exact .of_ok ended ⟨here, List.prefix_refl _, rfl⟩
  | cons level outer =>
    have ended : mark name ready s =
        .ok () { s with scopes := level.names.set name ready :: outer.map Level.names } := by
      simp only [mark, here, List.map_cons]
    exact .of_ok ended ⟨rfl, List.prefix_refl _, rfl⟩

theorem declare_walks (name : Token) :
    Walks (declare name) levels (markIn name.lexeme false levels) low high [] := by
  apply Walks.of_step
  intro s here
  cases levels with
  | nil =>
    have ended : declare name s = .ok () s := by simp only [declare, here, List.map_nil]
    exact .of_ok ended ⟨here, List.prefix_refl _, rfl⟩
  | cons level outer =>
    by_cases twice : level.names.contains name.lexeme
    · have ended : declare name s = .error ⟨.declaredTwice, name⟩ s := by
        simp only [declare, here, List.map_cons, twice, if_true]
      exact .of_error ended trivial
    · have ended : declare name s = .ok ()
          { s with scopes := level.names.set name.lexeme false :: outer.map Level.names } := by
        simp only [declare, mark, here, List.map_cons, twice, if_false, Bool.false_eq_true]
      exact .of_ok ended ⟨rfl, List.prefix_refl _, rfl⟩

theorem markIn_markIn (name : String) (first second : Bool) (levels : List Level) :
    markIn name second (markIn name first levels) = markIn name second levels := by
  cases levels with
  | nil => rfl
  | cons level outer => simp [markIn, Table.set_set]

theorem introduce_walks (name : Token) :
    Walks (introduce name) levels (markIn name.lexeme true levels) low low [] := by
  have marked : Walks (mark name.lexeme true) (markIn name.lexeme false levels)
      (markIn name.lexeme true levels) low low [] := by
    rw [← markIn_markIn name.lexeme false true levels]
    exact mark_walks name.lexeme true
  exact .after_step (declare_walks name) marked (Nat.le_refl _)

theorem introduceAll_walks (parameters : List Token) {site : Site} {names : Table Bool} :
    Walks (introduceAll parameters) (⟨site, names⟩ :: levels)
      (⟨site, parameters.foldl (fun names p => names.set p.lexeme true) names⟩ :: levels) low low
      [] := by
  induction parameters generalizing names with
  | nil => exact .pure
  | cons p rest ih =>
    apply Walks.after_step (introduce_walks p) ih (Nat.le_refl _)

section Tree

variable (tokens : List Token)

/-- The levels behind a list of statements. -/
def behindAll (body : List Stmt) (levels : List Level) : List Level :=
  body.foldl (fun levels s => behind s levels) levels

theorem behind_tail (s : Stmt) (level : Level) (levels : List Level) :
    ∃ names, behind s (level :: levels) = ⟨level.site, names⟩ :: levels := by
  unfold behind
  split
  · exact ⟨level.names, rfl⟩
  · next name _ => exact ⟨level.names.set name.lexeme true, rfl⟩

theorem behindAll_tail (body : List Stmt) (level : Level) (levels : List Level) :
    ∃ names, behindAll body (level :: levels) = ⟨level.site, names⟩ :: levels := by
  induction body generalizing level with
  | nil => exact ⟨level.names, rfl⟩
  | cons s rest ih =>
    obtain ⟨names, first⟩ := behind_tail s level levels
    obtain ⟨others, second⟩ := ih ⟨level.site, names⟩
    refine ⟨others, ?_⟩
    rw [behindAll, List.foldl_cons, first]
    exact second

/-- What the walk over a tree does in every context, inside every levels that fit around it. -/
def Followed (low high : Nat) : Tree → Prop
  | .expr e => ∀ ⦃context levels⦄, Usable levels →
    Walks (walkExpr context e) levels levels low high (exprOccurrences levels e)
  | .exprs es => ∀ ⦃context levels⦄, Usable levels →
    Walks (walkExprs context es) levels levels low high (exprsOccurrences levels es)
  | .clause e => ∀ ⦃context levels⦄, Usable levels →
    Walks (walkOptional context e) levels levels low high (clauseOccurrences levels e)
  | .stmt s => ∀ ⦃context levels⦄, Ready levels →
    Walks (walkStmt context s) levels (behind s levels) low high (stmtOccurrences levels s)
  | .stmts body => ∀ ⦃context levels⦄, Ready levels →
    Walks (walkStmts context body) levels (behindAll body levels) low high
      (stmtsOccurrences levels body)
  | .branch s => ∀ s' ∈ s, ∀ ⦃context levels⦄, Ready levels →
    Walks (walkStmt context s') levels (behind s' levels) low high (stmtOccurrences levels s')
  | .routine d => ∀ ⦃context body levels⦄, Ready levels →
    Walks (walkDeclaration context body d) levels levels low high (declarationOccurrences levels d)
  | .routines ds => ∀ ⦃context levels⦄, Ready levels →
    Walks (walkMethods context ds) levels levels low high (methodsOccurrences levels ds)

variable {tokens} {first second third middle : Nat}

theorem behind_plain {s : Stmt} (plain : s.declared? = none) (levels : List Level) :
    behind s levels = levels := by simp only [behind, plain]

theorem parameterNames_ready (parameters : List Token) (site : Site) :
    Level.Ready ⟨site, parameterNames parameters⟩ := by
  have ready (names : Table Bool) (start : Level.Ready ⟨site, names⟩) :
      Level.Ready ⟨site, parameters.foldl (fun names p => names.set p.lexeme true) names⟩ := by
    induction parameters generalizing names with
    | nil => exact start
    | cons p rest ih => exact ih _ (start.set p.lexeme)
  exact ready [] nofun

theorem opened_ready {levels : List Level} (ready : Ready levels) (site : Site) :
    Ready (⟨site, []⟩ :: levels) := .cons nofun ready

theorem classLevels_ready {levels : List Level} (ready : Ready levels) (clause : Option Reference)
    (methods : List Declaration) : Ready (classLevels clause methods levels) := by
  have single (site : Site) (name : String) : Level.Ready ⟨site, [(name, true)]⟩ := by
    intro other b found
    simp only [Table.get?] at found
    split at found
    · exact (Option.some.inj found).symm
    · cases found
  cases clause with
  | none => exact .cons (single _ _) ready
  | some r => exact .cons (single _ _) (.cons (single _ _) ready)

theorem walks_block {body : List Stmt} (statements : Walks (walkStmts context body)
      (⟨.block body, []⟩ :: levels) (behindAll body (⟨.block body, []⟩ :: levels)) low high
      (stmtsOccurrences (⟨.block body, []⟩ :: levels) body)) :
    Walks (walkStmt context (.block body)) levels levels low high
      (stmtOccurrences levels (.block body)) := by
  obtain ⟨names, same⟩ := behindAll_tail body ⟨.block body, []⟩ levels
  rw [same] at statements
  exact .inside statements

theorem followed_block {body : List Stmt} (statements : Followed low high (.stmts body)) :
    Followed low high (.stmt (.block body)) :=
  fun _ _ ready => walks_block (statements (opened_ready ready _))

theorem followed_while {e : Expr} {s : Stmt} (test : Followed low middle (.expr e))
    (body : Followed middle high (.stmt s)) (plain : s.declared? = none) (ordered : low ≤ middle)
    (ordered' : middle ≤ high) : Followed low high (.stmt (.while_ e s)) := by
  intro context levels ready
  have repeated : Walks (walkStmt context s) levels (behind s levels) middle high
      (stmtOccurrences levels s) := body ready
  rw [behind_plain plain] at repeated
  exact (test ready.usable).bind repeated (by omega) (by omega) (by omega)

theorem followed_none (id : Nat) : Followed id id (.stmts []) := fun _ _ _ => .pure

theorem followed_more {s : Stmt} {rest : List Stmt} {low' high' low'' high'' : Nat}
    (one : Followed low' high' (.stmt s)) (others : Followed low'' high'' (.stmts rest))
    (inside : low ≤ low' ∧ high' ≤ high) (inside' : low ≤ low'' ∧ high'' ≤ high)
    (apart : high' ≤ low'' ∨ high'' ≤ low') : Followed low high (.stmts (s :: rest)) :=
  fun _ _ ready => (one ready).bind (others (ready.behind s)) inside inside' apart

theorem followed_expression {e : Expr} (value : Followed low high (.expr e)) :
    Followed low high (.stmt (.expression e)) := fun _ _ ready => value ready.usable

/-- The body of a loop is walked before the increment, though the increment was built first. -/
theorem followed_loopBody {s : Stmt} {step : Option Expr} (plain : s.declared? = none)
    (increment : Followed low middle (.clause step)) (body : Followed middle high (.stmt s))
    (ordered : low ≤ middle) (ordered' : middle ≤ high) :
    Followed low high (.stmt (loopBody s step)) ∧ (loopBody s step).declared? = none := by
  cases step with
  | none =>
    refine ⟨fun _ _ ready => (body ready).widen ordered (Nat.le_refl _), plain⟩
  | some e =>
    have value : Followed low middle (.expr e) := fun _ _ usable => increment usable
    have last : Followed low middle (.stmts [.expression e]) :=
      followed_more (followed_expression value) (followed_none middle)
        (by omega) (by omega) (by omega)
    exact ⟨followed_block (followed_more body last (by omega) (by omega) (by omega)), rfl⟩

theorem followed_for {i : Option Stmt} {e step : Option Expr} {s : Stmt}
    (initializer : Followed low first (.branch i)) (condition : Followed first second (.clause e))
    (increment : Followed second third (.clause step)) (body : Followed third high (.stmt s))
    (plain : s.declared? = none) (ordered : low ≤ first ∧ first ≤ second ∧ second ≤ third ∧
      third ≤ high) : Followed low high (.stmt (forLoop i e step s)) := by
  obtain ⟨repeated, plainBody⟩ := followed_loopBody plain increment body (by omega) (by omega)
  have test : Followed first second (.expr (e.getD (.literal (.boolean true)))) := by
    cases e with
    | none => exact fun _ _ _ => .pure
    | some e => exact fun _ _ usable => condition usable
  have loop : Followed first high
      (.stmt (.while_ (e.getD (.literal (.boolean true))) (loopBody s step))) :=
    followed_while test repeated plainBody (by omega) (by omega)
  cases i with
  | none => exact fun _ _ ready => (loop ready).widen (by omega) (Nat.le_refl _)
  | some s' =>
    have before : Followed low first (.stmt s') := initializer s' rfl
    have rest : Followed first high (.stmts [.while_ _ (loopBody s step)]) :=
      followed_more loop (followed_none high) (by omega) (by omega)
        (by omega)
    exact followed_block (followed_more before rest (by omega) (by omega) (by omega))

theorem followed_routine {name : Token} {parameters : List Token} {body : List Stmt}
    (statements : Followed low high (.stmts body)) (ordered : low ≤ high) :
    Followed low high (.routine ⟨name, parameters, body⟩) := by
  intro context kind levels ready
  let site : Site := .routine ⟨name, parameters, body⟩
  have listed : Walks (introduceAll parameters) (⟨site, []⟩ :: levels)
      (⟨site, parameterNames parameters⟩ :: levels) low low [] := introduceAll_walks parameters
  have inner : Ready (⟨site, parameterNames parameters⟩ :: levels) :=
    .cons (parameterNames_ready parameters site) ready
  have walked : Walks (walkStmts { context with body := some kind } body)
      (⟨site, parameterNames parameters⟩ :: levels)
      (behindAll body (⟨site, parameterNames parameters⟩ :: levels)) low high
      (stmtsOccurrences (⟨site, parameterNames parameters⟩ :: levels) body) := statements inner
  obtain ⟨names, same⟩ := behindAll_tail body ⟨site, parameterNames parameters⟩ levels
  rw [same] at walked
  exact .inside (listed.after_step walked ordered)

/-- The methods of a class are walked inside a scope for `this`, and one for `super` around it. -/
theorem insideClass_walks {walk : Walk Unit} {clause : Option Reference}
    {methods : List Declaration} {found : List Occurrence}
    (inner : Walks walk (classLevels clause methods levels) (classLevels clause methods levels) low
      high found) (ordered : low ≤ high) :
    Walks (insideClass clause walk) levels levels low high found := by
  have withThis {outer : List Level} (body : Walks walk
        (⟨.receiver methods, [("this", true)]⟩ :: outer)
        (⟨.receiver methods, [("this", true)]⟩ :: outer) low high found) :
      Walks (Scope.inside do mark "this" true; walk) outer outer low high found := by
    have marked : Walks (mark "this" true) (⟨.receiver methods, []⟩ :: outer)
        (⟨.receiver methods, [("this", true)]⟩ :: outer) low low [] := mark_walks "this" true
    exact .inside (marked.after_step body ordered)
  cases clause with
  | none => exact withThis inner
  | some r =>
    have marked : Walks (mark "super" true) (⟨.parent methods, []⟩ :: levels)
        (⟨.parent methods, [("super", true)]⟩ :: levels) low low [] := mark_walks "super" true
    exact .inside (marked.after_step (withThis inner) ordered)

/-- Where another name is looked for, it does not matter whether a name is ready. -/
theorem Occurrence.marked {use : Use} {r : Reference} {name : String} (other : r.name.lexeme ≠ name)
    (levels : List Level) (first second : Bool) :
    let o : Occurrence := ⟨use, r, markIn name first levels⟩
    let o' : Occurrence := ⟨use, r, markIn name second levels⟩
    o.depth? = o'.depth? ∧ (o'.Ready → o.Ready) := by
  intro o o'
  cases levels with
  | nil => exact ⟨rfl, fun ready => ready⟩
  | cons level outer =>
    have got (b : Bool) : (level.names.set name b).get? r.name.lexeme =
        level.names.get? r.name.lexeme := by
      rw [Table.get?_set, if_neg other]
    have same : o.depth? = o'.depth? := by
      simp only [o, o', depth?, markIn, List.findIdx?_cons, Occurrence.name, Table.contains, got]
    refine ⟨same, ?_⟩
    intro ready read d found
    rw [same] at found
    obtain ⟨there, at_d, named⟩ := ready read d found
    cases d with
    | zero =>
      cases at_d
      refine ⟨_, rfl, ?_⟩
      simp only [o', Occurrence.name, got] at named
      simpa only [o, Occurrence.name, got] using named
    | succ d => exact ⟨there, at_d, named⟩

/-- A class that names itself as its superclass is reported; another name is read as if the name of
the class were still pending. -/
theorem walkSuperclass_walks {name : Token} {clause : Option Reference} (ready : Ready levels)
    (parent : ∀ r ∈ clause, low ≤ r.id ∧ r.id < middle) (ordered : low ≤ middle) :
    Walks (walkSuperclass name clause) (markIn name.lexeme true levels)
      (markIn name.lexeme true levels) low middle
      (superclassOccurrences (markIn name.lexeme false levels) clause) := by
  cases clause with
  | none => exact .pure
  | some r =>
    obtain ⟨lower, upper⟩ := parent r rfl
    have read : Walks (readVariable r) (markIn name.lexeme true levels)
        (markIn name.lexeme true levels) low middle [⟨.read, r, markIn name.lexeme true levels⟩] :=
      (readVariable_walks (ready.markIn name.lexeme).usable).widen lower upper
    change Walks (if r.name.lexeme = name.lexeme then do report .inheritsFromItself r.name; readVariable r
      else readVariable r) _ _ _ _ _
    split
    · have spoiled : Walks (report .inheritsFromItself r.name) (markIn name.lexeme true levels)
          (markIn name.lexeme true levels) low low
          (superclassOccurrences (markIn name.lexeme false levels) (some r)) := .report _ _
      apply (spoiled.bind read (by omega) (by omega) (by omega)).retold
      intro o member
      exact ⟨o, List.mem_append_left _ member, rfl, rfl, id⟩
    · next other =>
      apply read.retold
      intro o member
      obtain rfl := List.mem_singleton.mp member
      exact ⟨_, List.mem_singleton_self _, rfl, Occurrence.marked other levels false true⟩

/-- Behind the name of a class stand its superclass clause and its methods. -/
theorem followed_class {name : Token} {clause : Option Reference} {methods : List Declaration}
    (parent : ∀ r ∈ clause, low ≤ r.id ∧ r.id < middle) (inner : Followed middle high (.routines methods))
    (ordered : low ≤ middle) (ordered' : middle ≤ high) :
    Followed low high (.stmt (.class_ name clause methods)) := by
  intro context levels ready
  have there := ready.markIn name.lexeme
  have clauses : Walks (walkSuperclass name clause) (markIn name.lexeme true levels)
      (markIn name.lexeme true levels) low middle
      (superclassOccurrences (markIn name.lexeme false levels) clause) :=
    walkSuperclass_walks ready parent ordered
  have bodies : Walks (walkMethods (classContext context clause) methods)
      (classLevels clause methods (markIn name.lexeme true levels))
      (classLevels clause methods (markIn name.lexeme true levels)) middle high
      (methodsOccurrences (classLevels clause methods (markIn name.lexeme true levels)) methods) :=
    inner (classLevels_ready there clause methods)
  exact (introduce_walks name).after_step
    (clauses.bind (insideClass_walks bodies ordered') (by omega) (by omega) (by omega)) (by omega)

theorem checkReturn_walks (keyword : Token) (value : Option Expr) :
    Walks (checkReturn context keyword value) levels levels low low [] := by
  let judgeValue : Walk Unit := if context.body = some .initializer && value.isSome then
    report .valueFromInitializer keyword else pure ()
  have valued : Walks judgeValue levels levels low low [] := by
    unfold judgeValue
    split
    · exact .report _ _
    · exact .pure
  change Walks (if context.body = none then do report .returnOutsideFunction keyword; judgeValue
    else judgeValue) _ _ _ _ _
  split
  · exact (Walks.report _ _).after_step valued (Nat.le_refl _)
  · exact valued

/-- The walk over a tree of well-spelled tokens records its occurrences. -/
theorem followed_of_built (spelled : ∀ t ∈ tokens, t.Fitting) {tree : Tree}
    (built : Built tokens low tree high) : Followed low high tree := by
  induction built with
  | @widen low first tree last high built below above ih =>
    cases tree with
    | expr e => exact fun _ _ usable => (ih usable).widen below above
    | exprs es => exact fun _ _ usable => (ih usable).widen below above
    | clause e => exact fun _ _ usable => (ih usable).widen below above
    | stmt s => exact fun _ _ ready => (ih ready).widen below above
    | stmts body => exact fun _ _ ready => (ih ready).widen below above
    | branch s => exact fun s' member _ _ ready => (ih s' member ready).widen below above
    | routine d => exact fun _ _ _ ready => (ih ready).widen below above
    | routines ds => exact fun _ _ ready => (ih ready).widen below above
  | literal => exact fun _ _ _ => .pure
  | grouping inner ih => exact ih
  | unary member sign right ih => exact ih
  | @operation tier l operator r low middle high member chosen left right ih ih' =>
    have below := left.ordered
    have above := right.ordered
    intro context levels usable
    cases tier <;> exact (ih usable).bind (ih' usable) (by omega) (by omega) (by omega)
  | power member raises left right ih ih' =>
    have below := left.ordered
    have above := right.ordered
    exact fun _ _ usable => (ih usable).bind (ih' usable) (by omega) (by omega) (by omega)
  | @conditional e t f low first second high condition thenBranch elseBranch ih ih₁ ih₂ =>
    have below := condition.ordered
    have between := thenBranch.ordered
    have above := elseBranch.ordered
    intro context levels usable
    have branches : Walks (do walkExpr context t; walkExpr context f) levels levels first high
        (exprOccurrences levels t ++ exprOccurrences levels f) :=
      (ih₁ usable).bind (ih₂ usable) (by omega) (by omega) (by omega)
    exact (ih usable).bind branches (by omega) (by omega) (by omega)
  | «variable» named => exact fun _ _ usable => readVariable_walks usable
  | @assign name e low high named value ih =>
    -- the target gets its identity behind the value
    have ordered := value.ordered
    intro context levels usable
    have written : Walks (locate ⟨high, name⟩) levels levels high (high + 1)
        [⟨.write, ⟨high, name⟩, levels⟩] := locate_walks fun other => absurd rfl other
    exact (ih usable).bind written (by omega) (by omega) (by omega)
  | call member _ callee arguments ih ih' =>
    have below := callee.ordered
    have above := arguments.ordered
    exact fun _ _ usable => (ih usable).bind (ih' usable) (by omega) (by omega) (by omega)
  | get named object ih => exact ih
  | set named object value ih ih' =>
    -- the value is walked first, though its identities come after those of the object
    have below := object.ordered
    have above := value.ordered
    exact fun _ _ usable => (ih' usable).bind (ih usable) (by omega) (by omega) (by omega)
  | this member kind =>
    exact fun _ _ usable => readThis_walks usable ((spelled _ member).word kind)
  | super member kind named =>
    exact fun _ _ usable => readSuper_walks usable ((spelled _ member).word kind)
  | noExprs => exact fun _ _ _ => .pure
  | moreExprs first rest ih ih' =>
    have below := first.ordered
    have above := rest.ordered
    exact fun _ _ usable => (ih usable).bind (ih' usable) (by omega) (by omega) (by omega)
  | noClause => exact fun _ _ _ => .pure
  | someClause value ih => exact ih
  | expression value ih => exact followed_expression ih
  | print value ih => exact fun _ _ ready => ih ready.usable
  | @var name initializer low high named value ih =>
    -- in its own initializer the name is there but not ready
    have ordered := value.ordered
    intro context levels ready
    have free := (spelled _ named.member).name named.kind
    have valued : Walks (walkOptional context initializer) (markIn name.lexeme false levels)
        (markIn name.lexeme false levels) low high
        (clauseOccurrences (markIn name.lexeme false levels) initializer) := ih (ready.pending free)
    have marked : Walks (mark name.lexeme true) (markIn name.lexeme false levels)
        (markIn name.lexeme true levels) high high [] := by
      rw [← markIn_markIn name.lexeme false true levels]
      exact mark_walks name.lexeme true
    exact (declare_walks name).after_step (valued.before_step marked ordered) ordered
  | block statements ih => exact followed_block ih
  | @if_ e s other low first second high condition thenBranch plain elseBranch others ih ih₁ ih₂ =>
    have below := condition.ordered
    have between := thenBranch.ordered
    have above := elseBranch.ordered
    intro context levels ready
    have chosen : Walks (walkStmt context s) levels (behind s levels) first second
        (stmtOccurrences levels s) := ih₁ ready
    rw [behind_plain plain] at chosen
    cases other with
    | none => exact (ih ready.usable).bind chosen (by omega) (by omega) (by omega)
    | some s' =>
      have otherwise : Walks (walkStmt context s') levels (behind s' levels) second high
          (stmtOccurrences levels s') := ih₂ s' rfl ready
      rw [behind_plain (others s' rfl)] at otherwise
      have branches : Walks (do walkStmt context s; walkStmt context s') levels levels first high
          (stmtOccurrences levels s ++ stmtOccurrences levels s') :=
        chosen.bind otherwise (by omega) (by omega) (by omega)
      exact (ih ready.usable).bind branches (by omega) (by omega) (by omega)
  | while_ condition body plain ih ih' =>
    exact followed_while ih ih' plain condition.ordered body.ordered
  | for_ initializer condition increment body plain ih ih₁ ih₂ ih₃ =>
    exact followed_for ih ih₁ ih₂ ih₃ plain ⟨initializer.ordered, condition.ordered,
      increment.ordered, body.ordered⟩
  | @function d low high routine ih =>
    obtain ⟨name, parameters, body⟩ := d
    intro context levels ready
    have walked : Walks (walkDeclaration context .function ⟨name, parameters, body⟩)
        (markIn name.lexeme true levels) (markIn name.lexeme true levels) low high
        (declarationOccurrences (markIn name.lexeme true levels) ⟨name, parameters, body⟩) :=
      ih (ready.markIn name.lexeme)
    exact (introduce_walks name).after_step walked routine.ordered
  | return_ member _ returned ih =>
    exact fun _ _ ready => (checkReturn_walks _ _).after_step (ih ready.usable) returned.ordered
  | class_ named ordered parent methods ih =>
    exact followed_class (fun r member => (parent r member).2) ih ordered methods.ordered
  | noStmts => exact followed_none _
  | moreStmts first rest ih ih' =>
    have below := first.ordered
    have above := rest.ordered
    exact followed_more ih ih' (by omega) (by omega) (by omega)
  | noBranch => exact nofun
  | someBranch taken ih =>
    rintro _ ⟨⟩
    exact ih
  | routine named listed statements ih => exact followed_routine ih statements.ordered
  | noRoutines => exact fun _ _ _ => .pure
  | moreRoutines first rest ih ih' =>
    have below := first.ordered
    have above := rest.ordered
    exact fun _ _ ready => (ih ready).bind (ih' ready) (by omega) (by omega) (by omega)

end Tree

/-- A program that is read and resolved without a fault has, for every occurrence of a name, the
distance to the nearest level that declares it as its depth, or no depth where there is none. -/
theorem resolve_records {source : String} {depths : Depths}
    (resolved : resolve (Program.read source).statements = (depths, [])) :
    ∀ o ∈ occurrences (Program.read source).statements, depths[o.id]? = o.depth? ∧ o.Ready := by
  obtain ⟨high, built⟩ := readProgram_built (scan source).1
  have walks : Walks (walkStmts .top (Program.read source).statements) []
      (behindAll (Program.read source).statements []) 0 high
      (occurrences (Program.read source).statements) :=
    followed_of_built (scan_fitting source) built nofun
  have walked := walks .start rfl
  unfold resolve at resolved
  cases ended : walkStmts .top (Program.read source).statements .start with
  | ok _ last =>
    rw [ended] at resolved
    obtain ⟨rfl, clean⟩ := Prod.mk.inj resolved
    intro o member
    have fresh (id : Nat) (_ : 0 ≤ id) (_ : id < high) : State.start.depths[id]? = none :=
      Std.TreeMap.getElem?_emptyc
    exact ((walked.ok_of ended).recorded clean fresh o member).2
  | error e last =>
    rw [ended] at resolved
    have some := (Prod.mk.inj resolved).2
    simp at some

end LoxLang.Scope
