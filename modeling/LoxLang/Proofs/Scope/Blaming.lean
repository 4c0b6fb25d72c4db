import LoxLang.Proofs.Grammar.Building.Statement
import LoxLang.Scope

/-! Faults of scope are found at words. The walk over a program finds fault with the names that it
declares or looks up and with the keywords that refer or return, and these are tokens of the text. -/
namespace LoxLang.Scope
open Grammar

/-- From faults found at such tokens, the part of the walk comes to faults found at such tokens. -/
def Blames (P : Token → Prop) (walk : Walk Unit) : Prop :=
  ∀ s : State, (∀ e ∈ s.reported, P e.found) →
    Ends walk s (fun _ last => ∀ e ∈ last.reported, P e.found)
      fun e last => (∀ e ∈ last.reported, P e.found) ∧ P e.found

namespace Blames

variable {P : Token → Prop} {walk first second : Walk Unit} {t : Token} {r : Reference} {context : Context}

theorem pure : Blames P (Pure.pure ()) := fun _ held => held

theorem bind (one : Blames P first) (two : Blames P second) : Blames P (first >>= fun _ => second) :=
  fun s held => (one s held).bind fun _ after _ held' => two after held'

theorem report {cause : ScopeError.Cause} (found : P t) : Blames P (Scope.report cause t) :=
  fun _ held => List.forall_mem_append.mpr ⟨held, List.forall_mem_singleton.mpr found⟩

/-- A part that gives a result and reports nothing. -/
theorem of_silent (silent : ∀ s, ∃ last, walk s = .ok () last ∧ last.reported = s.reported) :
    Blames P walk := by
  intro s held
  obtain ⟨last, ended, same⟩ := silent s
  exact .of_ok ended (same ▸ held)

theorem mark (name : String) (ready : Bool) : Blames P (Scope.mark name ready) := by
  apply of_silent
  intro s
  unfold Scope.mark
  cases s.scopes with
  | nil => exact ⟨s, rfl, rfl⟩
  | cons scope outer => exact ⟨_, rfl, rfl⟩

theorem declare (found : P t) : Blames P (Scope.declare t) := by
  intro s held
  cases scopes : s.scopes with
  | nil =>
    have ended : Scope.declare t s = .ok () s := by simp only [Scope.declare, scopes]
    exact .of_ok ended held
  | cons scope outer =>
    by_cases twice : scope.contains t.lexeme
    · have ended : Scope.declare t s = .error ⟨.declaredTwice, t⟩ s := by
        simp only [Scope.declare, scopes, twice, if_true]
      exact .of_error ended ⟨held, found⟩
    · have marked : Scope.declare t s = Scope.mark t.lexeme false s := by
        simp only [Scope.declare, scopes, twice, Bool.false_eq_true, if_false]
      exact (mark t.lexeme false s held).of_eq marked

theorem introduce (found : P t) : Blames P (Scope.introduce t) := (declare found).bind (mark _ _)

theorem introduceAll {names : List Token} (found : ∀ t ∈ names, P t) : Blames P (Scope.introduceAll names) := by
  induction names with
  | nil => exact pure
  | cons name rest ih =>
    obtain ⟨here, others⟩ := List.forall_mem_cons.mp found
    exact (introduce here).bind (ih others)

theorem inside (inner : Blames P walk) : Blames P (Scope.inside walk) := by
  have opening : Blames P (modify fun s : State => { s with scopes := [] :: s.scopes }) :=
    of_silent fun s => ⟨_, rfl, rfl⟩
  have closing : Blames P (modify fun s : State => { s with scopes := s.scopes.tail }) :=
    of_silent fun s => ⟨_, rfl, rfl⟩
  exact opening.bind (inner.bind closing)

theorem locate (r : Reference) : Blames P (Scope.locate r) := by
  apply of_silent
  intro s
  unfold Scope.locate
  split
  · exact ⟨_, rfl, rfl⟩
  · exact ⟨s, rfl, rfl⟩

theorem readVariable (found : P r.name) : Blames P (Scope.readVariable r) := by
  intro s held
  have looked : (get : Walk State) s = .ok s s := rfl
  refine Ends.of_eq ?_ (bind_of_ok looked)
  split
  · exact ⟨held, found⟩
  · exact locate r s held

theorem readThis (found : P r.name) : Blames P (Scope.readThis context r) := by
  unfold Scope.readThis
  split
  · exact report found
  · exact locate r

theorem readSuper (found : P r.name) : Blames P (Scope.readSuper context r) := by
  unfold Scope.readSuper
  split
  · exact report found
  · exact report found
  · exact locate r

/-- A fault that is reported before the rest of the walk. -/
theorem reportIf {c : Prop} [Decidable c] {cause : ScopeError.Cause} (found : P t) (rest : Blames P walk) :
    Blames P (if c then do Scope.report cause t; walk else walk) := by
  split
  · exact (report found).bind rest
  · exact rest

theorem checkReturn {value : Option Expr} (found : P t) : Blames P (Scope.checkReturn context t value) := by
  apply reportIf found
  split
  · exact report found
  · exact pure

theorem walkSuperclass {name : Token} {clause : Option Reference} (found : ∀ r ∈ clause, P r.name) :
    Blames P (Scope.walkSuperclass name clause) := by
  cases clause with
  | none => exact pure
  | some r => exact reportIf (found r rfl) (readVariable (found r rfl))

theorem insideClass (superclass : Option Reference) (inner : Blames P walk) :
    Blames P (Scope.insideClass superclass walk) := by
  have withThis : Blames P (Scope.inside do Scope.mark "this" true; walk) := inside ((mark _ _).bind inner)
  cases superclass with
  | none => exact withThis
  | some _ => exact inside ((mark _ _).bind withThis)

end Blames

/-- The walk over the tree, wherever it stands, finds fault with such tokens only. -/
def TreeBlames (P : Token → Prop) : Tree → Prop
  | .expr e => ∀ context, Blames P (walkExpr context e)
  | .exprs es => ∀ context, Blames P (walkExprs context es)
  | .clause e => ∀ context, Blames P (walkOptional context e)
  | .stmt s => ∀ context, Blames P (walkStmt context s)
  | .stmts body => ∀ context, Blames P (walkStmts context body)
  | .branch s => ∀ s' ∈ s, ∀ context, Blames P (walkStmt context s')
  | .routine d => P d.name ∧ ∀ context kind, Blames P (walkDeclaration context kind d)
  | .routines ds => ∀ context, Blames P (walkMethods context ds)

/-- A name or a keyword out of the tokens. -/
structure WordAmong (tokens : List Token) (t : Token) : Prop where
  member : t ∈ tokens
  kind : t.kind = .identifier ∨ ∃ k, t.kind = .keyword k

section Tree

variable {P : Token → Prop} {tokens : List Token} {low high : Nat} {tree : Tree}

theorem blames_loop {i : Option Stmt} {e step : Option Expr} {s : Stmt}
    (initializer : TreeBlames P (.branch i)) (condition : TreeBlames P (.clause e))
    (increment : TreeBlames P (.clause step)) (body : TreeBlames P (.stmt s)) :
    TreeBlames P (.stmt (forLoop i e step s)) := by
  have test (context : Context) :
      Blames P (walkExpr context (e.getD (.literal (.boolean true)))) := by
    cases e with
    | none => exact .pure
    | some e => exact condition context
  have round (context : Context) : Blames P (walkStmt context (loopBody s step)) := by
    cases step with
    | none => exact body context
    | some e => exact .inside ((body context).bind ((increment context).bind .pure))
  have loop (context : Context) : Blames P (walkStmt context
      (.while_ (e.getD (.literal (.boolean true))) (loopBody s step))) := (test context).bind (round context)
  intro context
  cases i with
  | none => exact loop context
  | some first => exact .inside ((initializer first rfl context).bind ((loop context).bind .pure))

theorem blames_of_built (built : Built tokens low tree high) : TreeBlames (WordAmong tokens) tree := by
  have word {name : Token} (named : IsName tokens name) : WordAmong tokens name :=
    ⟨named.member, .inl named.kind⟩
  induction built with
  | widen _ _ _ ih => exact ih
  | literal => exact fun _ => .pure
  | grouping _ ih | unary _ _ _ ih | get _ _ ih => exact ih
  | @operation tier _ _ _ _ _ _ _ _ _ _ ih ih' =>
    cases tier <;> exact fun context => (ih context).bind (ih' context)
  | power _ _ _ _ ih ih' | call _ _ _ _ ih ih' | moreExprs _ _ ih ih' | moreStmts _ _ ih ih'
  | while_ _ _ _ ih ih' => exact fun context => (ih context).bind (ih' context)
  | set _ _ _ ih ih' => exact fun context => (ih' context).bind (ih context)
  | conditional _ _ _ ih ih₁ ih₂ =>
    exact fun context => (ih context).bind ((ih₁ context).bind (ih₂ context))
  | «variable» named => exact fun _ => .readVariable (word named)
  | assign named _ ih => exact fun context => (ih context).bind (.locate _)
  | this member kind => exact fun _ => .readThis ⟨member, .inr ⟨_, kind⟩⟩
  | super member kind => exact fun _ => .readSuper ⟨member, .inr ⟨_, kind⟩⟩
  | noExprs | noClause | noStmts | noRoutines => exact fun _ => .pure
  | someClause _ ih | expression _ ih | print _ ih => exact ih
  | var named _ ih => exact fun context => (Blames.declare (word named)).bind ((ih context).bind (.mark _ _))
  | block _ ih => exact fun context => .inside (ih context)
  | @if_ _ _ other _ _ _ _ _ _ _ _ _ ih ih₁ ih₂ =>
    intro context
    cases other with
    | none => exact (ih context).bind (ih₁ context)
    | some s' => exact (ih context).bind ((ih₁ context).bind (ih₂ s' rfl context))
  | for_ _ _ _ _ _ ih ih₁ ih₂ ih₃ => exact blames_loop ih ih₁ ih₂ ih₃
  | function _ ih => exact fun context => (Blames.introduce ih.1).bind (ih.2 context .function)
  | return_ member kind _ ih =>
    exact fun context => (Blames.checkReturn ⟨member, .inr ⟨_, kind⟩⟩).bind (ih context)
  | class_ named _ parent _ ih =>
    exact fun context => (Blames.introduce (word named)).bind <|
      (Blames.walkSuperclass fun r member => word (parent r member).1).bind (.insideClass _ (ih _))
  | noBranch => exact nofun
  | someBranch _ ih =>
    rintro _ ⟨⟩
    exact ih
  | routine named listed _ ih =>
    exact ⟨word named, fun context kind => .inside <|
      (Blames.introduceAll fun p member => word (listed p member)).bind (ih { context with body := some kind })⟩
  | moreRoutines _ _ ih ih' => exact fun context => (ih.2 context _).bind (ih' context)

/-- The faults of a program's scopes are found at names and keywords out of its tokens. -/
theorem resolve_found (tokens : List Token) :
    ∀ e ∈ (resolve (readProgram tokens).1).2, WordAmong tokens e.found := by
  obtain ⟨_, built⟩ := readProgram_built tokens
  have blames := blames_of_built built .top .start (fun _ member => absurd member List.not_mem_nil)
  unfold resolve
  cases walked : walkStmts .top (readProgram tokens).1 .start with
  | ok _ last => exact blames.ok_of walked
  | error e last =>
    obtain ⟨earlier, found⟩ := blames.error_of walked
    exact List.forall_mem_append.mpr ⟨earlier, List.forall_mem_singleton.mpr found⟩

end Tree

end LoxLang.Scope
