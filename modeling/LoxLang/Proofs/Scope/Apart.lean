import LoxLang.Proofs.Scope.Recording

/-! No name is declared twice in one scope of a program that the walk accepts. A scope only gains names
while the walk is inside it, so the second declaration of a name would find the first one. -/
namespace LoxLang.Scope

/-- The statements do not declare one name both. -/
def Apart (s other : Stmt) : Prop :=
  ∀ t t', s.declared? = some t → other.declared? = some t' → t.lexeme ≠ t'.lexeme

/-- The parameter has another name than what the statement declares. -/
def ApartFrom (s : Stmt) (p : Token) : Prop := ∀ t, s.declared? = some t → p.lexeme ≠ t.lexeme

mutual

/-- In every scope inside the statement the declarations are apart. -/
def stmtApart : Stmt → Prop
  | .block body => body.Pairwise Apart ∧ stmtsApart body
  | .if_ _ thenBranch none => stmtApart thenBranch
  | .if_ _ thenBranch (some elseBranch) => stmtApart thenBranch ∧ stmtApart elseBranch
  | .while_ _ body => stmtApart body
  | .function d => declarationApart d
  | .class_ _ _ methods => declarationsApart methods
  | _ => True

def stmtsApart : List Stmt → Prop
  | [] => True
  | s :: rest => stmtApart s ∧ stmtsApart rest

def declarationApart : Declaration → Prop
  | ⟨_, parameters, body⟩ =>
    (∀ p ∈ parameters, ∀ s ∈ body, ApartFrom s p) ∧ body.Pairwise Apart ∧ stmtsApart body

def declarationsApart : List Declaration → Prop
  | [] => True
  | d :: rest => declarationApart d ∧ declarationsApart rest

end

/-- The innermost scope has kept its names, and the others are the same. -/
inductive Widened : List (Table Bool) → List (Table Bool) → Prop
  | top : Widened [] []
  | local_ {scope scope' outer} (kept : ∀ name, scope.contains name → scope'.contains name) :
    Widened (scope :: outer) (scope' :: outer)

theorem Widened.refl (scopes : List (Table Bool)) : Widened scopes scopes := by
  cases scopes with
  | nil => exact .top
  | cons scope outer => exact .local_ fun _ kept => kept

theorem Widened.trans {first second third : List (Table Bool)} (one : Widened first second)
    (two : Widened second third) : Widened first third := by
  cases one with
  | top => exact two
  | local_ kept =>
    cases two with
    | local_ kept' => exact .local_ fun name contained => kept' name (kept name contained)

/-- The name was new in the innermost scope, and is in it now. -/
def Added (name : String) (before after : List (Table Bool)) : Prop :=
  (∀ scope ∈ before.head?, ¬ scope.contains name) ∧ ∀ scope ∈ after.head?, scope.contains name

theorem Added.widened {name : String} {before middle after : List (Table Bool)}
    (added : Added name before middle) (widened : Widened middle after) : Added name before after := by
  refine ⟨added.1, ?_⟩
  cases widened with
  | top => exact added.2
  | local_ kept =>
    rintro _ ⟨⟩
    exact kept name (added.2 _ rfl)

/-- If it succeeds, the walk ends with scopes that `after` holds of. -/
def Reshapes (walk : Walk Unit) (s : State) (after : List (Table Bool) → Prop) : Prop :=
  Ends walk s (fun _ last => after last.scopes) fun _ _ => True

namespace Reshapes

variable {walk first second : Walk Unit} {s : State} {after middle : List (Table Bool) → Prop}

theorem mono {after' : List (Table Bool) → Prop} (reshapes : Reshapes walk s after)
    (weaker : ∀ scopes, after scopes → after' scopes) : Reshapes walk s after' :=
  Ends.mono reshapes (fun _ _ => weaker _) fun _ _ => id

theorem bind (one : Reshapes first s middle)
    (two : ∀ t : State, middle t.scopes → Reshapes second t after) :
    Reshapes (first >>= fun _ => second) s after :=
  Ends.bind one fun _ t _ holds => two t holds

/-- Two parts of the walk, the first of which leaves the scopes as they are. -/
theorem then_ (one : Reshapes first s (· = s.scopes))
    (two : ∀ t : State, t.scopes = s.scopes → Reshapes second t after) :
    Reshapes (first >>= fun _ => second) s after := one.bind two

/-- Inside a scope of its own the walk leaves the scopes around it as they are. -/
theorem inside {holds : Prop}
    (inner : ∀ t : State, t.scopes = [] :: s.scopes →
      Reshapes walk t fun scopes => Widened ([] :: s.scopes) scopes ∧ holds) :
    Reshapes (Scope.inside walk) s fun scopes => scopes = s.scopes ∧ holds := by
  have opening : Reshapes (modify fun s : State => { s with scopes := [] :: s.scopes }) s
      (· = [] :: s.scopes) := Ends.modify rfl
  apply opening.bind
  intro t entered
  have body := inner t entered
  apply Ends.bind body
  rintro _ last _ ⟨widened, holds⟩
  apply Ends.modify
  refine ⟨?_, holds⟩
  generalize scopes : last.scopes = left at widened
  cases widened with
  | local_ kept => rfl

end Reshapes

section Primitives

variable {s : State}

theorem locate_reshapes (r : Reference) : Reshapes (locate r) s (· = s.scopes) := by
  unfold Reshapes Ends locate
  dsimp only
  split
  · next ended =>
    split at ended
    · cases ended
      rfl
    · cases ended
      rfl
  · trivial

theorem report_reshapes (cause : ScopeError.Cause) (t : Token) :
    Reshapes (report cause t) s (· = s.scopes) := rfl

theorem readVariable_reshapes (r : Reference) : Reshapes (readVariable r) s (· = s.scopes) := by
  have got : Ends (get : Walk State) s (fun a t => a = s ∧ t = s) fun _ _ => True := ⟨rfl, rfl⟩
  apply Ends.bind got
  rintro _ _ _ ⟨rfl, rfl⟩
  split
  · exact Ends.throw trivial
  · exact locate_reshapes r

theorem readThis_reshapes (context : Context) (r : Reference) :
    Reshapes (readThis context r) s (· = s.scopes) := by
  unfold readThis
  split
  · exact report_reshapes _ _
  · exact locate_reshapes r

theorem readSuper_reshapes (context : Context) (r : Reference) :
    Reshapes (readSuper context r) s (· = s.scopes) := by
  unfold readSuper
  split
  · exact report_reshapes _ _
  · exact report_reshapes _ _
  · exact locate_reshapes r

theorem mark_reshapes (name : String) (ready : Bool) :
    Reshapes (mark name ready) s fun scopes => Widened s.scopes scopes ∧
      ∀ scope ∈ scopes.head?, scope.contains name := by
  obtain ⟨scopes, depths, reported⟩ := s
  cases scopes with
  | nil => exact ⟨.top, nofun⟩
  | cons scope outer =>
    refine ⟨.local_ fun other kept => (Table.contains_set _ _ _ _).mpr (.inr kept), ?_⟩
    rintro _ ⟨⟩
    exact (Table.contains_set _ _ _ _).mpr (.inl rfl)

theorem declare_reshapes (name : Token) :
    Reshapes (declare name) s fun scopes => Widened s.scopes scopes ∧ Added name.lexeme s.scopes scopes := by
  obtain ⟨scopes, depths, reported⟩ := s
  cases scopes with
  | nil => exact ⟨.top, nofun, nofun⟩
  | cons scope outer =>
    by_cases twice : scope.contains name.lexeme
    · have ended : declare name ⟨scope :: outer, depths, reported⟩ =
          .error ⟨.declaredTwice, name⟩ ⟨scope :: outer, depths, reported⟩ := by
        simp only [declare, twice, if_true]
      exact Ends.of_error ended trivial
    · have marked : declare name ⟨scope :: outer, depths, reported⟩ =
          mark name.lexeme false ⟨scope :: outer, depths, reported⟩ := by
        simp only [declare, twice, Bool.false_eq_true, if_false]
      have widened := mark_reshapes (s := ⟨scope :: outer, depths, reported⟩) name.lexeme false
      unfold Reshapes Ends at widened ⊢
      rw [marked]
      refine ⟨widened.1, ?_, widened.2⟩
      rintro _ ⟨⟩
      exact twice

theorem introduce_reshapes (name : Token) :
    Reshapes (introduce name) s fun scopes => Widened s.scopes scopes ∧
      Added name.lexeme s.scopes scopes := by
  apply (declare_reshapes name).bind
  rintro t ⟨widened, added⟩
  apply (mark_reshapes name.lexeme true).mono
  rintro scopes ⟨widened', contained⟩
  exact ⟨widened.trans widened', added.1, contained⟩

theorem introduceAll_reshapes (parameters : List Token) :
    Reshapes (introduceAll parameters) s fun scopes => Widened s.scopes scopes ∧
      ∀ p ∈ parameters, ∀ scope ∈ scopes.head?, scope.contains p.lexeme := by
  induction parameters generalizing s with
  | nil => exact ⟨.refl _, nofun⟩
  | cons p rest ih =>
    apply (introduce_reshapes p).bind
    rintro t ⟨widened, added⟩
    apply ih.mono
    rintro scopes ⟨widened', contained⟩
    refine ⟨widened.trans widened', ?_⟩
    intro q member
    rcases List.mem_cons.mp member with rfl | later
    · exact (added.widened widened').2
    · exact contained q later

end Primitives

mutual

theorem walkExpr_reshapes (context : Context) : ∀ (e : Expr) (s : State),
    Reshapes (walkExpr context e) s (· = s.scopes)
  | .literal _, _ => rfl
  | .grouping inner, s => walkExpr_reshapes context inner s
  | .unary _ right, s => walkExpr_reshapes context right s
  | .binary left _ right, s | .logical left _ right, s =>
    (walkExpr_reshapes context left s).then_ fun t same => same ▸ walkExpr_reshapes context right t
  | .conditional condition thenBranch elseBranch, s =>
    (walkExpr_reshapes context condition s).then_ fun t same =>
      same ▸ (walkExpr_reshapes context thenBranch t).then_ fun u same =>
        same ▸ walkExpr_reshapes context elseBranch u
  | .variable r, _ => readVariable_reshapes r
  | .assign r value, s =>
    (walkExpr_reshapes context value s).then_ fun _ same => same ▸ locate_reshapes r
  | .call callee _ arguments, s =>
    (walkExpr_reshapes context callee s).then_ fun t same => same ▸ walkExprs_reshapes context arguments t
  | .get object _, s => walkExpr_reshapes context object s
  | .set object _ value, s =>
    (walkExpr_reshapes context value s).then_ fun t same => same ▸ walkExpr_reshapes context object t
  | .this r, _ => readThis_reshapes context r
  | .super r _, _ => readSuper_reshapes context r

theorem walkExprs_reshapes (context : Context) : ∀ (es : List Expr) (s : State),
    Reshapes (walkExprs context es) s (· = s.scopes)
  | [], _ => rfl
  | e :: rest, s =>
    (walkExpr_reshapes context e s).then_ fun t same => same ▸ walkExprs_reshapes context rest t

end

theorem walkOptional_reshapes (context : Context) (e : Option Expr) (s : State) :
    Reshapes (walkOptional context e) s (· = s.scopes) := by
  cases e with
  | none => rfl
  | some e => exact walkExpr_reshapes context e s

theorem walkSuperclass_reshapes (name : Token) (clause : Option Reference) (s : State) :
    Reshapes (walkSuperclass name clause) s (· = s.scopes) := by
  cases clause with
  | none => rfl
  | some r =>
    change Reshapes (if r.name.lexeme = name.lexeme then do report .inheritsFromItself r.name; readVariable r
      else readVariable r) s _
    split
    · exact (report_reshapes _ _).then_ fun _ same => same ▸ readVariable_reshapes r
    · exact readVariable_reshapes r

theorem checkReturn_reshapes (context : Context) (keyword : Token) (value : Option Expr) (s : State) :
    Reshapes (checkReturn context keyword value) s (· = s.scopes) := by
  let judgeValue : Walk Unit := if context.body = some .initializer && value.isSome then
    report .valueFromInitializer keyword else pure ()
  have judged (t : State) : Reshapes judgeValue t (· = t.scopes) := by
    unfold judgeValue
    split
    · exact report_reshapes _ _
    · rfl
  change Reshapes (if context.body = none then do report .returnOutsideFunction keyword; judgeValue
    else judgeValue) s _
  split
  · exact (report_reshapes _ _).then_ fun t same => same ▸ judged t
  · exact judged s

theorem insideClass_reshapes {walk : Walk Unit} {holds : Prop} (clause : Option Reference) (s : State)
    (inner : ∀ t : State, Reshapes walk t fun scopes => scopes = t.scopes ∧ holds) :
    Reshapes (insideClass clause walk) s fun scopes => scopes = s.scopes ∧ holds := by
  have marked (name : String) {walk : Walk Unit} (t : State)
      (inner : ∀ u : State, Reshapes walk u fun scopes => scopes = u.scopes ∧ holds) :
      Reshapes (inside do mark name true; walk) t fun scopes => scopes = t.scopes ∧ holds := by
    apply Reshapes.inside
    intro u entered
    apply (mark_reshapes name true).bind
    rintro v ⟨widened, _⟩
    apply (inner v).mono
    rintro scopes ⟨rfl, held⟩
    exact ⟨entered ▸ widened, held⟩
  cases clause with
  | none => exact marked "this" s inner
  | some r => exact marked "super" s fun t => marked "this" t inner

/-- What a statement declares was not there before it and is there behind it. -/
def Reshaped (s : Stmt) (before after : List (Table Bool)) : Prop :=
  Widened before after ∧ (∀ t, s.declared? = some t → Added t.lexeme before after) ∧ stmtApart s

theorem Reshaped.same {s : Stmt} {before after : List (Table Bool)} (same : after = before)
    (plain : s.declared? = none) (apart : stmtApart s) : Reshaped s before after := by
  refine ⟨same ▸ .refl _, ?_, apart⟩
  intro t declared
  rw [plain] at declared
  cases declared

/-- What the statements declare is new in the scope around them, and apart from each other. -/
def ReshapedAll (body : List Stmt) (before after : List (Table Bool)) : Prop :=
  Widened before after ∧ stmtsApart body ∧ ∀ scope ∈ before.head?, body.Pairwise Apart ∧
    ∀ s ∈ body, ∀ t, s.declared? = some t → ¬ scope.contains t.lexeme

theorem ReshapedAll.cons {s : Stmt} {rest : List Stmt} {before middle after : List (Table Bool)}
    (one : Reshaped s before middle) (others : ReshapedAll rest middle after) :
    ReshapedAll (s :: rest) before after := by
  obtain ⟨widened, added, apart⟩ := one
  obtain ⟨widened', aparts, fresh⟩ := others
  refine ⟨widened.trans widened', ⟨apart, aparts⟩, ?_⟩
  cases widened with
  | top => exact nofun
  | local_ kept =>
    rintro _ ⟨⟩
    obtain ⟨pairwise, new⟩ := fresh _ rfl
    constructor
    · refine List.pairwise_cons.mpr ⟨?_, pairwise⟩
      intro other member t t' declared declared' same
      exact new other member t' declared' (same ▸ (added t declared).2 _ rfl)
    · intro other member t declared contained
      rcases List.mem_cons.mp member with rfl | later
      · exact (added t declared).1 _ rfl contained
      · exact new other later t declared (kept _ contained)

mutual

theorem walkStmt_reshapes (context : Context) : ∀ (s : Stmt) (st : State),
    Reshapes (walkStmt context s) st (Reshaped s st.scopes)
  | .expression e, st | .print e, st =>
    (walkExpr_reshapes context e st).mono fun _ same => .same same rfl trivial
  | .var name initializer, st => by
    apply (declare_reshapes name).bind
    rintro t ⟨widened, added⟩
    -- the initializer leaves the scopes alone between the two marks of the name
    apply (walkOptional_reshapes context initializer t).then_
    intro u same
    apply (mark_reshapes name.lexeme true).mono
    rintro scopes ⟨widened', _⟩
    rw [same] at widened'
    refine ⟨widened.trans widened', ?_, trivial⟩
    rintro _ ⟨⟩
    exact added.widened widened'
  | .block body, st => by
    have inner : Reshapes (inside (walkStmts context body)) st fun scopes => scopes = st.scopes ∧
        (stmtsApart body ∧ body.Pairwise Apart) := by
      apply Reshapes.inside
      intro t entered
      apply (walkStmts_reshapes context body t).mono
      rintro scopes ⟨widened, aparts, fresh⟩
      rw [entered] at widened fresh
      exact ⟨widened, aparts, (fresh _ rfl).1⟩
    apply inner.mono
    rintro scopes ⟨same, aparts, pairwise⟩
    exact .same same rfl ⟨pairwise, aparts⟩
  | .if_ condition thenBranch none, st => by
    apply (walkExpr_reshapes context condition st).then_
    intro t same
    apply (walkStmt_reshapes context thenBranch t).mono
    rintro scopes ⟨widened, _, apart⟩
    rw [same] at widened
    exact ⟨widened, nofun, apart⟩
  | .if_ condition thenBranch (some elseBranch), st => by
    apply (walkExpr_reshapes context condition st).then_
    intro t same
    apply (walkStmt_reshapes context thenBranch t).bind
    rintro u ⟨widened, _, apart⟩
    apply (walkStmt_reshapes context elseBranch u).mono
    rintro scopes ⟨widened', _, apart'⟩
    rw [same] at widened
    exact ⟨widened.trans widened', nofun, apart, apart'⟩
  | .while_ condition body, st => by
    apply (walkExpr_reshapes context condition st).then_
    intro t same
    apply (walkStmt_reshapes context body t).mono
    rintro scopes ⟨widened, _, apart⟩
    rw [same] at widened
    exact ⟨widened, nofun, apart⟩
  | .function ⟨name, parameters, body⟩, st => by
    apply (introduce_reshapes name).bind
    rintro t ⟨widened, added⟩
    apply (walkDeclaration_reshapes context .function ⟨name, parameters, body⟩ t).mono
    rintro scopes ⟨rfl, apart⟩
    refine ⟨widened, ?_, apart⟩
    rintro _ ⟨⟩
    exact added
  | .return_ keyword value, st => by
    apply (checkReturn_reshapes context keyword value st).then_
    intro t same
    exact (walkOptional_reshapes context value t).mono fun _ same' => .same (same'.trans same) rfl trivial
  | .class_ name clause methods, st => by
    apply (introduce_reshapes name).bind
    rintro t ⟨widened, added⟩
    apply (walkSuperclass_reshapes name clause t).then_
    intro u same
    apply (insideClass_reshapes clause u (walkMethods_reshapes _ methods)).mono
    rintro scopes ⟨same', apart⟩
    rw [same', same]
    refine ⟨widened, ?_, apart⟩
    rintro _ ⟨⟩
    exact added

theorem walkStmts_reshapes (context : Context) : ∀ (body : List Stmt) (st : State),
    Reshapes (walkStmts context body) st (ReshapedAll body st.scopes)
  | [], _ => ⟨.refl _, trivial, fun _ _ => ⟨.nil, nofun⟩⟩
  | s :: rest, st => by
    apply (walkStmt_reshapes context s st).bind
    intro t one
    exact (walkStmts_reshapes context rest t).mono fun _ others => .cons one others

theorem walkDeclaration_reshapes (context : Context) (kind : Body) : ∀ (d : Declaration) (st : State),
    Reshapes (walkDeclaration context kind d) st fun scopes => scopes = st.scopes ∧ declarationApart d
  | ⟨_, parameters, body⟩, st => by
    apply Reshapes.inside
    intro t entered
    apply (introduceAll_reshapes parameters).bind
    rintro u ⟨widened, contained⟩
    apply (walkStmts_reshapes _ body u).mono
    rintro scopes ⟨widened', aparts, fresh⟩
    rw [entered] at widened
    generalize u.scopes = before at *
    cases widened with
    | local_ kept =>
      obtain ⟨pairwise, new⟩ := fresh _ rfl
      refine ⟨.trans (.local_ kept) widened', ?_, pairwise, aparts⟩
      intro p member s inside t declared same
      exact new s inside t declared (same ▸ contained p member _ rfl)

theorem walkMethods_reshapes (context : Context) : ∀ (ds : List Declaration) (st : State),
    Reshapes (walkMethods context ds) st fun scopes => scopes = st.scopes ∧ declarationsApart ds
  | [], _ => ⟨rfl, trivial⟩
  | d :: rest, st => by
    apply (walkDeclaration_reshapes context (methodBody d) d st).bind
    rintro t ⟨same, apart⟩
    apply (walkMethods_reshapes context rest t).mono
    rintro scopes ⟨same', aparts⟩
    exact ⟨same'.trans same, apart, aparts⟩

end

/-- In every scope of a program that resolves without a fault, the declarations are apart. -/
theorem apart_of_resolved {program : List Stmt} {depths : Depths}
    (resolved : resolve program = (depths, [])) : stmtsApart program := by
  have reshapes := walkStmts_reshapes .top program .start
  unfold resolve at resolved
  cases ended : walkStmts .top program .start with
  | ok _ last => exact (Ends.ok_of reshapes ended).2.1
  | error e last =>
    rw [ended] at resolved
    have some := (Prod.mk.inj resolved).2
    simp at some

end LoxLang.Scope
