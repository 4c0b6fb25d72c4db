import LoxLang.Proofs.Renaming.Scope

/-! Programs that are alike up to a renaming are resolved alike: the walk over one of them finds a fault
only where the walk over the other does, and records the same depths. -/
namespace LoxLang
namespace Comparison
open Grammar Scope Renaming

variable {ρ : Comparison} {marked : Bool} {marks : List Bool} {levels : List Level}

/-- Around an occurrence in a superclass clause it does not matter whether the class is ready. -/
theorem Recorded.markedAs {use : Use} {r : Reference} {name : String} {ready : Bool}
    (recorded : ρ.Recorded [⟨use, r, markIn name ready levels⟩]) (ready' : Bool) :
    ρ.Recorded [⟨use, r, markIn name ready' levels⟩] := by
  intro o member
  obtain rfl := List.mem_singleton.mp member
  have depth : ρ.depths[r.id]? = Occurrence.depth? ⟨use, r, markIn name ready levels⟩ :=
    recorded _ (List.mem_singleton_self _)
  refine depth.trans ?_
  cases levels with
  | nil => rfl
  | cons level outer =>
    have same : (level.names.set name ready).contains r.name.lexeme =
        (level.names.set name ready').contains r.name.lexeme := by
      rw [Bool.eq_iff_iff, Table.contains_set, Table.contains_set]
    simp only [Occurrence.depth?, Occurrence.name, markIn, List.findIdx?_cons, same]

theorem Recorded.append {found found' : List Occurrence} (recorded : ρ.Recorded (found ++ found')) :
    ρ.Recorded found ∧ ρ.Recorded found' :=
  ⟨fun o member => recorded o (List.mem_append_left _ member),
    fun o member => recorded o (List.mem_append_right _ member)⟩

variable (ρ) in
/-- The walks over two trees follow each other in every context. -/
def Followed (marks : List Bool) : Tree → Tree → Prop
  | .expr e, .expr e' => ∀ ⦃context levels⦄, ρ.Recorded (exprOccurrences levels e) →
    ρ.Follows (walkExpr context e) (walkExpr context e') levels levels marks
  | .exprs es, .exprs es' => ∀ ⦃context levels⦄, ρ.Recorded (exprsOccurrences levels es) →
    ρ.Follows (walkExprs context es) (walkExprs context es') levels levels marks
  | .clause e, .clause e' => e.isSome = e'.isSome ∧
    ∀ ⦃context levels⦄, ρ.Recorded (clauseOccurrences levels e) →
      ρ.Follows (walkOptional context e) (walkOptional context e') levels levels marks
  | .stmt s, .stmt s' => ∀ ⦃context levels⦄, ρ.Recorded (stmtOccurrences levels s) →
    ρ.Follows (walkStmt context s) (walkStmt context s') levels (behind s levels) marks
  | .stmts body, .stmts body' => ∀ ⦃context levels⦄, ρ.Recorded (stmtsOccurrences levels body) →
    ρ.Follows (walkStmts context body) (walkStmts context body') levels (behindAll body levels) marks
  | .branch none, .branch none => True
  | .branch (some s), .branch (some s') => ∀ ⦃context levels⦄, ρ.Recorded (stmtOccurrences levels s) →
    ρ.Follows (walkStmt context s) (walkStmt context s') levels levels marks
  | .routine d, .routine d' => ρ.Agrees d.name d'.name ∧
    ∀ ⦃context body levels⦄, ρ.Recorded (declarationOccurrences levels d) →
      ρ.Follows (walkDeclaration context body d) (walkDeclaration context body d') levels levels marks
  | .routines ds, .routines ds' => ∀ ⦃context levels⦄, ρ.Recorded (methodsOccurrences levels ds) →
    ρ.Follows (walkMethods context ds) (walkMethods context ds') levels levels marks
  | _, _ => False

theorem checkReturn_follows {context : Context} {keyword keyword' : Token} {value value' : Option Expr}
    (given : value.isSome = value'.isSome) :
    ρ.Follows (checkReturn context keyword value) (checkReturn context keyword' value') levels levels
      marks := by
  let judgeValue (t : Token) : Walk Unit := if context.body = some .initializer && value'.isSome then
    Scope.report .valueFromInitializer t else pure ()
  have judged : ρ.Follows (judgeValue keyword) (judgeValue keyword') levels levels marks := by
    unfold judgeValue
    split
    · exact .report _ _ _ _
    · exact .pure
  unfold checkReturn
  rw [given]
  change ρ.Follows
    (if context.body = none then do report .returnOutsideFunction keyword; judgeValue keyword
      else judgeValue keyword)
    (if context.body = none then do report .returnOutsideFunction keyword'; judgeValue keyword'
      else judgeValue keyword') _ _ _
  split
  · exact (Follows.report _ _ _ _).bind judged
  · exact judged

/-- The mark of a reference that names what the innermost scope has just declared. -/
theorem StatesAlike.led_head {s s' : State} {r : Reference} {name : String} {ready : Bool} {use : Use}
    (alike : ρ.StatesAlike (markIn name ready levels) marks s s')
    (recorded : ρ.Recorded [⟨use, r, markIn name ready levels⟩]) (same : r.name.lexeme = name) :
    ρ.leads marks r.id = marks.headD false := by
  have led := alike.led recorded
  have inside := alike.inside
  have scopes := alike.scopes
  generalize s.scopes = ts at *
  generalize s'.scopes = ts' at *
  cases levels with
  | nil =>
    cases inside
    cases scopes
    unfold leads
    split <;> rfl
  | cons level outer =>
    cases inside
    cases scopes with
    | inside _ _ =>
      have contained : (level.names.set name ready).contains r.name.lexeme :=
        (Table.contains_set _ _ _ _).mpr (.inl same)
      have first := led 0 (by simp [markIn, List.findIdx?_cons, contained])
      exact (Option.some.inj first).symm

theorem walkSuperclass_follows {name name' : Token} {clause clause' : Option Reference}
    (becomes : ρ.Becomes (marks.headD false) name name')
    (parent : Option.Rel (ρ.Refers marks) clause clause')
    (recorded : ρ.Recorded (superclassOccurrences (markIn name.lexeme false levels) clause)) :
    ρ.Follows (walkSuperclass name clause) (walkSuperclass name' clause')
      (markIn name.lexeme true levels) (markIn name.lexeme true levels) marks := by
  cases parent with
  | none => exact .pure
  | @some r r' refers =>
    have recorded' := Recorded.markedAs recorded true
    have read := Follows.readVariable refers recorded'
    intro s s' alike
    have itself : r'.name.lexeme = name'.lexeme ↔ r.name.lexeme = name.lexeme := by
      rw [refers.name.lexeme, becomes.lexeme]
      constructor
      · exact name_inj refers.name.fresh becomes.fresh
      · intro same
        rw [alike.led_head recorded' same, same]
    change Pairs
      (if r.name.lexeme = name.lexeme then do report .inheritsFromItself r.name; readVariable r
        else readVariable r)
      (if r'.name.lexeme = name'.lexeme then do report .inheritsFromItself r'.name; readVariable r'
        else readVariable r') s s' _ _
    simp only [itself]
    split
    · exact (Follows.report _ _ _ _).bind read s s' alike
    · exact read s s' alike

/-- A statement that declares nothing leaves the levels as they are. -/
theorem follows_plain {s s' : Stmt} {context : Context} (plain : s.declared? = none)
    (followed : ρ.Followed marks (.stmt s) (.stmt s')) (recorded : ρ.Recorded (stmtOccurrences levels s)) :
    ρ.Follows (walkStmt context s) (walkStmt context s') levels levels marks := by
  have walked : ρ.Follows (walkStmt context s) (walkStmt context s') levels (behind s levels) marks :=
    followed recorded
  rwa [behind_plain plain] at walked

theorem followed_routine {name name' : Token} {ps ps' : List Token} {body body' : List Stmt}
    (same : ρ.Agrees name name') (becomes : List.Forall₂ (ρ.Becomes marked) ps ps')
    (inner : ρ.Followed (marked :: marks) (.stmts body) (.stmts body')) :
    ρ.Followed marks (.routine ⟨name, ps, body⟩) (.routine ⟨name', ps', body'⟩) := by
  refine ⟨same, ?_⟩
  intro context kind levels recorded
  have listed : ρ.Follows (Scope.introduceAll ps) (Scope.introduceAll ps')
      (⟨.routine ⟨name, ps, body⟩, []⟩ :: levels)
      (⟨.routine ⟨name, ps, body⟩, parameterNames ps⟩ :: levels) (marked :: marks) :=
    .introduceAll becomes
  have walked : ρ.Follows (walkStmts { context with body := some kind } body)
      (walkStmts { context with body := some kind } body') _ _ (marked :: marks) := inner recorded
  obtain ⟨names, left⟩ :=
    behindAll_tail body ⟨.routine ⟨name, ps, body⟩, parameterNames ps⟩ levels
  rw [left] at walked
  exact .inside (listed.bind walked)

theorem insideClass_follows (unreserved : ρ.Unreserved) {clause clause' : Option Reference}
    {methods : List Declaration} {walk walk' : Walk Unit} (same : clause'.isSome = clause.isSome)
    (inner : ρ.Follows walk walk' (classLevels clause methods levels)
      (classLevels clause methods levels) (insideClass clause marks)) :
    ρ.Follows (Scope.insideClass clause walk) (Scope.insideClass clause' walk') levels levels marks := by
  have word (k : Keyword) {marks : List Bool} {outer : List Level} :
      ρ.Follows (Scope.mark k.spelling true) (Scope.mark k.spelling true) outer
        (markIn k.spelling true outer) (false :: marks) :=
    .mark (unreserved.name k false).symm (unreserved.new k).symm true
  have withThis {outer : List Level} {marks : List Bool} (body : ρ.Follows walk walk'
        (⟨.receiver methods, [("this", true)]⟩ :: outer)
        (⟨.receiver methods, [("this", true)]⟩ :: outer) (false :: marks)) :
      ρ.Follows (Scope.inside do mark "this" true; walk) (Scope.inside do mark "this" true; walk')
        outer outer marks := by
    have marked : ρ.Follows (mark "this" true) (mark "this" true) (⟨.receiver methods, []⟩ :: outer)
        (⟨.receiver methods, [("this", true)]⟩ :: outer) (false :: marks) := word .this_
    exact .inside (marked.bind body)
  cases clause with
  | none =>
    cases clause' with
    | some r' => cases same
    | none => exact withThis inner
  | some r =>
    cases clause' with
    | none => cases same
    | some r' =>
      have marked : ρ.Follows (mark "super" true) (mark "super" true) (⟨.parent methods, []⟩ :: levels)
          (⟨.parent methods, [("super", true)]⟩ :: levels) (false :: marks) := word .super_
      exact .inside (marked.bind (withThis inner))

theorem followed_class (unreserved : ρ.Unreserved) {name name' : Token}
    {clause clause' : Option Reference} {ds ds' : List Declaration}
    (becomes : ρ.Becomes (marks.headD false) name name')
    (parent : Option.Rel (ρ.Refers marks) clause clause')
    (methods : ρ.Followed (insideClass clause marks) (.routines ds) (.routines ds')) :
    ρ.Followed marks (.stmt (.class_ name clause ds)) (.stmt (.class_ name' clause' ds')) := by
  intro context levels recorded
  have same : clause'.isSome = clause.isSome := by cases parent <;> rfl
  have clauses := walkSuperclass_follows becomes parent recorded.append.1
  have bodies : ρ.Follows (walkMethods (classContext context clause) ds)
      (walkMethods (classContext context clause) ds') _ _ _ := methods recorded.append.2
  have inside := insideClass_follows unreserved same bodies
  have contexts : classContext context clause' = classContext context clause := by
    simp only [classContext, same]
  change ρ.Follows _ (Scope.introduce name' >>= fun _ => walkSuperclass name' clause' >>= fun _ =>
    Scope.insideClass clause' (walkMethods (classContext context clause') ds')) _ _ _
  rw [contexts]
  exact (Follows.introduce becomes).bind (clauses.bind inside)

/-- Trees that are alike are walked alike. -/
theorem followed_of_alike (unreserved : ρ.Unreserved) {tree tree' : Tree}
    (alike : ρ.Alike marks tree tree') : ρ.Followed marks tree tree' := by
  induction alike with
  | literal => exact fun _ _ _ => .pure
  | grouping _ ih | unary _ _ ih | get _ _ ih => exact fun _ _ recorded => ih recorded
  | binary _ _ _ ih ih' | logical _ _ _ ih ih' =>
    exact fun _ _ recorded => (ih recorded.append.1).bind (ih' recorded.append.2)
  | conditional _ _ _ ih ih₁ ih₂ =>
    exact fun _ _ recorded => (ih recorded.append.1).bind
      ((ih₁ recorded.append.2.append.1).bind (ih₂ recorded.append.2.append.2))
  | «variable» refers => exact fun _ _ recorded => .readVariable refers recorded
  | assign refers _ ih =>
    exact fun _ _ recorded => (ih recorded.append.1).bind (.locate refers recorded.append.2)
  | call _ _ _ ih ih' => exact fun _ _ recorded => (ih recorded.append.1).bind (ih' recorded.append.2)
  | set _ _ _ ih ih' => exact fun _ _ recorded => (ih' recorded.append.1).bind (ih recorded.append.2)
  | this refers => exact fun _ _ recorded => .readThis refers recorded
  | super refers _ _ => exact fun _ _ recorded => .readSuper refers recorded
  | noExprs | noStmts | noRoutines => exact fun _ _ _ => .pure
  | moreExprs _ _ ih ih' => exact fun _ _ recorded => (ih recorded.append.1).bind (ih' recorded.append.2)
  | noClause => exact ⟨rfl, fun _ _ _ => .pure⟩
  | someClause _ ih => exact ⟨rfl, fun _ _ recorded => ih recorded⟩
  | expression _ ih | print _ ih => exact fun _ _ recorded => ih recorded
  | var becomes _ ih =>
    exact fun _ _ recorded =>
      (Follows.declare becomes).bind ((ih.2 recorded).bind (.readied becomes))
  | @block marks marked body body' _ _ ih =>
    intro context levels recorded
    have walked : ρ.Follows (walkStmts context body) (walkStmts context body') _ _ (marked :: marks) :=
      ih recorded
    obtain ⟨names, left⟩ := behindAll_tail body ⟨.block body, []⟩ levels
    rw [left] at walked
    exact .inside walked
  | @if_ marks e e' s s' other other' _ _ plain _ ih ih₁ ih₂ =>
    intro context levels recorded
    cases other with
    | none =>
      cases other' with
      | some t' => exact ih₂.elim
      | none => exact (ih recorded.append.1).bind (follows_plain plain ih₁ recorded.append.2)
    | some t =>
      cases other' with
      | none => exact ih₂.elim
      | some t' =>
        have taken : ρ.Follows (walkStmt context s) (walkStmt context s') levels levels marks :=
          follows_plain plain ih₁ recorded.append.2.append.1
        exact (ih recorded.append.1).bind (taken.bind (ih₂ recorded.append.2.append.2))
  | while_ _ _ plain ih ih' =>
    intro context levels recorded
    exact (ih recorded.append.1).bind (follows_plain plain ih' recorded.append.2)
  | @function marks d d' _ becomes _ ih =>
    obtain ⟨name, ps, body⟩ := d
    obtain ⟨name', ps', body'⟩ := d'
    exact fun _ _ recorded => (Follows.introduce becomes).bind (ih.2 recorded)
  | return_ _ _ ih =>
    exact fun _ _ recorded => (checkReturn_follows ih.1).bind (ih.2 recorded)
  | class_ _ becomes parent _ ih => exact followed_class unreserved becomes parent ih
  | moreStmts _ _ ih ih' =>
    exact fun _ _ recorded => (ih recorded.append.1).bind (ih' recorded.append.2)
  | noBranch => trivial
  | someBranch _ plain ih => exact fun _ _ recorded => follows_plain plain ih recorded
  | routine _ same becomes _ ih => exact followed_routine same becomes ih
  | @moreRoutines marks d d' ds ds' _ _ ih ih' =>
    -- what kind of body a method has hangs on its name, and methods are not renamed
    intro context levels recorded
    have first : ρ.Follows (walkDeclaration context (methodBody d) d)
        (walkDeclaration context (methodBody d) d') levels levels marks := ih.2 recorded.append.1
    have kind : methodBody d' = methodBody d := by
      unfold methodBody
      rw [ih.1.lexeme]
    change ρ.Follows _ (walkDeclaration context (methodBody d') d' >>= fun _ => walkMethods context ds')
      _ _ _
    rw [kind]
    exact first.bind (ih' recorded.append.2)

/-- A program that is like one that resolves without a fault does so as well, with the same depths. -/
theorem resolve_of_alike (whole : ρ.omits = false) (unreserved : ρ.Unreserved)
    {program program' : List Stmt}
    (alike : ρ.Alike [] (.stmts program) (.stmts program'))
    (recorded : ρ.Recorded (occurrences program)) {depths : Depths}
    (resolved : resolve program = (depths, [])) : resolve program' = (depths, []) := by
  have walks : ρ.Follows (walkStmts .top program) (walkStmts .top program') [] _ [] :=
    followed_of_alike unreserved alike recorded
  have pairs := walks .start .start ⟨whole, rfl, .top, rfl, rfl⟩
  unfold resolve at resolved ⊢
  rcases pairs.ends with ⟨_, last, _, last', ended, ended', left⟩ | ⟨e, last, _, _, ended, _, _⟩
  · rw [ended] at resolved
    rw [ended']
    obtain ⟨rfl, clean⟩ := Prod.mk.inj resolved
    have none : last'.reported.length = 0 := by rw [left.reported, clean, List.length_nil]
    exact Prod.ext left.depths (List.length_eq_zero_iff.mp none)
  · rw [ended] at resolved
    have some := (Prod.mk.inj resolved).2
    simp at some

end Comparison
end LoxLang
