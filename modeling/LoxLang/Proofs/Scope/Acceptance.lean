import LoxLang.Proofs.Ends
import LoxLang.Proofs.Scope.Place
import LoxLang.Proofs.Scope.Recording

/-! The walk over a program finds a fault exactly if some place in it is not valid.
A part of the walk is judged by what it adds to the faults reported before it: `Checks` says from which
scopes it starts, in which it ends, and what its finding no fault comes to. The kind of body and class
that the walk passes down is read off the path of a place, and the scopes it keeps decide two things
only: which names are declared already, and which one is being initialized. -/
namespace LoxLang.Scope

abbrev Scopes := List (Table Bool)

/-- A fault that ends the walk. -/
def Fatal (e : ScopeError) : Prop := e.cause = .declaredTwice ∨ e.cause = .readInOwnInitializer

instance : DecidablePred Fatal := fun e =>
  inferInstanceAs (Decidable (e.cause = .declaredTwice ∨ e.cause = .readInOwnInitializer))

/-- The later faults are the earlier ones and others that do not end the walk. -/
def Reported (before after : List ScopeError) : Prop :=
  ∃ more, after = before ++ more ∧ ∀ e ∈ more, ¬ Fatal e

theorem Reported.refl (before : List ScopeError) : Reported before before :=
  ⟨[], (List.append_nil _).symm, nofun⟩

theorem Reported.trans {first second third : List ScopeError} (one : Reported first second)
    (two : Reported second third) : Reported first third := by
  obtain ⟨more, rfl, mild⟩ := one
  obtain ⟨later, rfl, mild'⟩ := two
  refine ⟨more ++ later, List.append_assoc _ _ _, ?_⟩
  intro e member
  rcases List.mem_append.mp member with member | member
  · exact mild e member
  · exact mild' e member

/-- Nothing is reported between first and third only if nothing is on the way. -/
theorem Reported.same_iff {first second third : List ScopeError} (one : Reported first second)
    (two : Reported second third) : third = first ↔ second = first ∧ third = second := by
  obtain ⟨more, rfl, _⟩ := one
  obtain ⟨later, rfl, _⟩ := two
  simp only [List.append_assoc, List.append_right_eq_self, List.append_eq_nil_iff,
    List.append_cancel_left_eq]

/-- From these scopes the part of the walk ends inside `after`, unless it stops, and finds no fault
exactly if `accepts` holds. Only a fatal fault stops it, and it reports no such fault. -/
def Checks (walk : Walk Unit) (scopes after : Scopes) (accepts : Prop) : Prop :=
  ∀ s : State, s.scopes = scopes →
    Ends walk s
      (fun _ last => last.scopes = after ∧ Reported s.reported last.reported ∧
        (last.reported = s.reported ↔ accepts))
      (fun e last => Reported s.reported last.reported ∧ Fatal e ∧ ¬ accepts)

namespace Checks

variable {walk first second : Walk Unit} {scopes middle after : Scopes} {p q : Prop}

theorem congr (checks : Checks walk scopes after p) (same : p ↔ q) : Checks walk scopes after q :=
  propext same ▸ checks

theorem pure : Checks (Pure.pure ()) scopes scopes True :=
  fun _ here => ⟨here, .refl _, iff_of_true rfl trivial⟩

theorem report {cause : ScopeError.Cause} {t : Token} (mild : ¬ Fatal ⟨cause, t⟩) :
    Checks (Scope.report cause t) scopes scopes False := by
  intro s here
  refine ⟨here, ⟨_, rfl, by simpa using mild⟩, ?_⟩
  simp

theorem bind (one : Checks first scopes middle p) (two : Checks second middle after q) :
    Checks (first >>= fun _ => second) scopes after (p ∧ q) := by
  intro s here
  apply Ends.bind ((one s here).mono (fun _ _ => id) ?_)
  · rintro _ between _ ⟨there, reported, accepts⟩
    apply (two between there).mono
    · rintro _ last ⟨here', reported', accepts'⟩
      exact ⟨here', reported.trans reported',
        (reported.same_iff reported').trans (and_congr accepts accepts')⟩
    · rintro e last ⟨reported', fatal, rejects⟩
      exact ⟨reported.trans reported', fatal, fun both => rejects both.2⟩
  · rintro e last ⟨reported, fatal, rejects⟩
    exact ⟨reported, fatal, fun both => rejects both.1⟩

/-- A step that leaves faults and the number of scopes alone. -/
theorem of_step (step : ∀ s : State, s.scopes = scopes →
      ∃ last, walk s = .ok () last ∧ last.scopes = after ∧ last.reported = s.reported) :
    Checks walk scopes after True := by
  intro s here
  obtain ⟨last, ended, scopes, reported⟩ := step s here
  exact .of_ok ended ⟨scopes, reported ▸ .refl _, iff_of_true reported trivial⟩

/-- A part of the walk in a scope of its own. -/
theorem inside {scope : Table Bool} (inner : Checks walk ([] :: scopes) (scope :: scopes) p) :
    Checks (Scope.inside walk) scopes scopes p := by
  have opening : Checks (modify fun s : State => { s with scopes := [] :: s.scopes }) scopes
      ([] :: scopes) True := .of_step fun s here => ⟨_, rfl, by rw [← here], rfl⟩
  have closing : Checks (modify fun s : State => { s with scopes := s.scopes.tail })
      (scope :: scopes) scopes True := .of_step fun s here =>
    ⟨_, rfl, congrArg List.tail here, rfl⟩
  exact (opening.bind (inner.bind closing)).congr (by rw [true_and, and_true])

/-- A fault that is reported before the rest of the walk. -/
theorem reportIf {c : Prop} [Decidable c] {cause : ScopeError.Cause} {t : Token}
    (mild : ¬ Fatal ⟨cause, t⟩) (rest : Checks walk scopes after p) :
    Checks (if c then do Scope.report cause t; walk else walk) scopes after (¬ c ∧ p) := by
  split
  · next faulty => exact ((report mild).bind rest).congr (by simp [faulty])
  · next clean => exact rest.congr (by simp [clean])

end Checks

/-- Gives a name a mark in the innermost scope. -/
def marked (name : String) (ready : Bool) : Scopes → Scopes
  | [] => []
  | scope :: outer => scope.set name ready :: outer

/-- The scopes after these names have been declared. -/
def declared (names : List Token) (scopes : Scopes) : Scopes :=
  names.foldl (fun scopes name => marked name.lexeme true scopes) scopes

/-- The names are declared once, and not yet in the innermost scope; at the top level this does not
matter. -/
def Fresh (names : List Token) : Scopes → Prop
  | [] => True
  | scope :: _ => (names.map Token.lexeme).Nodup ∧ ∀ name ∈ names, ¬ scope.contains name.lexeme

/-- No name of the innermost scope is being initialized. -/
def AllReady (scopes : Scopes) : Prop :=
  ∀ scope ∈ scopes.head?, ∀ name, scope.get? name ≠ some false

variable {scopes : Scopes}

theorem AllReady.marked (ready : AllReady scopes) (name : String) :
    AllReady (marked name true scopes) := by
  cases scopes with
  | nil => exact nofun
  | cons scope outer =>
    rintro _ ⟨⟩ other
    rw [Table.get?_set]
    split
    · nofun
    · exact ready _ rfl other

theorem AllReady.declared (ready : AllReady scopes) (names : List Token) :
    AllReady (declared names scopes) := by
  induction names generalizing scopes with
  | nil => exact ready
  | cons name rest ih => exact ih (ready.marked name.lexeme)

theorem marked_marked (name : String) (first second : Bool) :
    marked name second (marked name first scopes) = marked name second scopes := by
  cases scopes with
  | nil => rfl
  | cons scope outer => simp only [marked, Table.set_set]

theorem declared_append (names more : List Token) :
    declared (names ++ more) scopes = declared more (declared names scopes) := by
  simp only [declared, List.foldl_append]

theorem fresh_nil : Fresh [] scopes := by
  cases scopes with
  | nil => trivial
  | cons scope outer => exact ⟨.nil, nofun⟩

theorem fresh_cons (name : Token) (rest : List Token) :
    Fresh (name :: rest) scopes ↔ Fresh [name] scopes ∧ Fresh rest (marked name.lexeme true scopes) := by
  cases scopes with
  | nil => simp [Fresh, marked]
  | cons scope outer =>
    simp only [Fresh, marked, List.map_cons, List.nodup_cons, List.mem_map, List.mem_cons,
      forall_eq_or_imp, Table.contains_set, List.map_nil, List.not_mem_nil]
    grind

theorem fresh_append (names more : List Token) :
    Fresh (names ++ more) scopes ↔ Fresh names scopes ∧ Fresh more (declared names scopes) := by
  induction names generalizing scopes with
  | nil => simp [fresh_nil, declared]
  | cons name rest ih =>
    rw [List.cons_append, fresh_cons, ih, fresh_cons name rest, and_assoc]
    rfl

/-- In a scope of its own what matters is that no name is declared twice. -/
theorem fresh_open (names : List Token) :
    Fresh names ([] :: scopes) ↔ (names.map Token.lexeme).Nodup := by
  simp [Fresh, Table.contains, Table.get?]

theorem tail_declared (names : List Token) (scope : Table Bool) (scopes : Scopes) :
    ∃ scope', declared names (scope :: scopes) = scope' :: scopes := by
  induction names generalizing scope with
  | nil => exact ⟨scope, rfl⟩
  | cons name rest ih => exact ih (scope.set name.lexeme true)

theorem locate_checks (r : Reference) : Checks (locate r) scopes scopes True := by
  apply Checks.of_step
  intro s here
  unfold locate
  split
  · exact ⟨_, rfl, here, rfl⟩
  · exact ⟨_, rfl, here, rfl⟩

theorem mark_checks (scopes : Scopes) (name : String) (ready : Bool) :
    Checks (mark name ready) scopes (marked name ready scopes) True := by
  apply Checks.of_step
  rintro ⟨scopes, depths, reported⟩ rfl
  cases scopes with
  | nil => exact ⟨_, rfl, rfl, rfl⟩
  | cons scope outer => exact ⟨_, rfl, rfl, rfl⟩

theorem declare_checks (scopes : Scopes) (name : Token) :
    Checks (declare name) scopes (marked name.lexeme false scopes) (Fresh [name] scopes) := by
  intro s here
  cases scopes with
  | nil =>
    have ended : declare name s = .ok () s := by simp only [declare, here]
    exact .of_ok ended ⟨here, .refl _, iff_of_true rfl trivial⟩
  | cons scope outer =>
    have fresh : Fresh [name] (scope :: outer) ↔ ¬ scope.contains name.lexeme := by
      simp [Fresh]
    by_cases twice : scope.contains name.lexeme
    · have ended : declare name s = .error ⟨.declaredTwice, name⟩ s := by
        simp only [declare, here, twice, if_true]
      exact .of_error ended ⟨.refl _, .inl rfl, fun free => fresh.mp free twice⟩
    · have ended : declare name s = mark name.lexeme false s := by
        simp only [declare, here, twice, Bool.false_eq_true, if_false]
      have marked := (mark_checks _ name.lexeme false).congr (iff_of_true trivial (fresh.mpr twice)) s here
      unfold Ends at marked ⊢
      rw [ended]
      exact marked

theorem introduce_checks (scopes : Scopes) (name : Token) :
    Checks (introduce name) scopes (declared [name] scopes) (Fresh [name] scopes) := by
  have both := (declare_checks scopes name).bind (mark_checks _ name.lexeme true)
  rw [marked_marked] at both
  exact both.congr (and_true _).to_iff

theorem introduceAll_checks (scopes : Scopes) (names : List Token) :
    Checks (introduceAll names) scopes (declared names scopes) (Fresh names scopes) := by
  induction names generalizing scopes with
  | nil => exact Checks.pure.congr (iff_of_true trivial fresh_nil)
  | cons name rest ih =>
    exact ((introduce_checks scopes name).bind (ih _)).congr (fresh_cons name rest).symm

/-- The name is not the one that is being initialized in the innermost scope. -/
def Readable (name : String) (scopes : Scopes) : Prop :=
  scopes.head?.bind (·.get? name) ≠ some false

theorem AllReady.readable (ready : AllReady scopes) (name : String) : Readable name scopes := by
  cases scopes with
  | nil => exact nofun
  | cons scope outer => exact ready scope rfl name

theorem readable_marked (ready : AllReady scopes) (name other : String) :
    Readable other (marked name false scopes) ↔ (scopes ≠ [] → other ≠ name) := by
  cases scopes with
  | nil => simp [Readable, marked]
  | cons scope outer =>
    have kept := ready scope rfl other
    simp only [Readable, marked, List.head?_cons, Option.bind_some, Table.get?_set]
    split
    · next same => simp [same]
    · next different => simp [different, kept]

theorem readVariable_checks (r : Reference) :
    Checks (readVariable r) scopes scopes (Readable r.name.lexeme scopes) := by
  intro s here
  have got : Ends (get : Walk State) s (fun a last => a = s ∧ last = s) fun _ _ => False := ⟨rfl, rfl⟩
  apply Ends.bind (got.mono (fun _ _ => id) fun _ _ => False.elim)
  rintro _ _ _ ⟨rfl, rfl⟩
  split
  · next pending =>
    exact ⟨.refl _, .inr rfl, fun readable => readable (here ▸ pending)⟩
  · next readable =>
    exact ((locate_checks r).congr (iff_of_true trivial (here ▸ readable))) _ here

/-- What the walk asks of a part of an expression. -/
def Fits (context : Context) (scopes : Scopes) : Expr → Prop
  | .variable r => Readable r.name.lexeme scopes
  | .this _ => context.cls ≠ none
  | .super _ _ => context.cls = some .derived
  | _ => True

variable {context : Context}

theorem readThis_checks (r : Reference) :
    Checks (readThis context r) scopes scopes (context.cls ≠ none) := by
  unfold readThis
  split
  · next outside => exact (Checks.report (by simp [Fatal])).congr (by simp [outside])
  · next cls => exact (locate_checks r).congr (by simp [cls])

theorem readSuper_checks (r : Reference) :
    Checks (readSuper context r) scopes scopes (context.cls = some .derived) := by
  unfold readSuper
  split
  · next outside => exact (Checks.report (by simp [Fatal])).congr (by simp [outside])
  · next plain => exact (Checks.report (by simp [Fatal])).congr (by simp [plain])
  · next derived => exact (locate_checks r).congr (by simp [derived])

mutual

theorem walkExpr_checks (context : Context) : ∀ e : Expr,
    Checks (walkExpr context e) scopes scopes (∀ part ∈ e.parts, Fits context scopes part)
  | .literal _ => Checks.pure.congr (by simp [Expr.parts, Fits])
  | .grouping inner | .unary _ inner | .get inner _ =>
    (walkExpr_checks context inner).congr (by simp [Expr.parts, Fits])
  | .binary left _ right | .logical left _ right =>
    ((walkExpr_checks context left).bind (walkExpr_checks context right)).congr
      (by simp [Expr.parts, Fits, or_imp, forall_and])
  | .conditional condition thenBranch elseBranch =>
    ((walkExpr_checks context condition).bind ((walkExpr_checks context thenBranch).bind
      (walkExpr_checks context elseBranch))).congr (by simp [Expr.parts, Fits, or_imp, forall_and])
  | .variable r => (readVariable_checks r).congr (by simp [Expr.parts, Fits])
  | .assign r value =>
    ((walkExpr_checks context value).bind (locate_checks r)).congr (by simp [Expr.parts, Fits])
  | .call callee _ arguments =>
    ((walkExpr_checks context callee).bind (walkExprs_checks context arguments)).congr
      (by simp [Expr.parts, Fits, or_imp, forall_and])
  | .set object _ value =>
    ((walkExpr_checks context value).bind (walkExpr_checks context object)).congr
      (by simp [Expr.parts, Fits, or_imp, forall_and])
  | .this r => (readThis_checks r).congr (by simp [Expr.parts, Fits])
  | .super r _ => (readSuper_checks r).congr (by simp [Expr.parts, Fits])

theorem walkExprs_checks (context : Context) : ∀ es : List Expr,
    Checks (walkExprs context es) scopes scopes (∀ part ∈ Expr.partsOf es, Fits context scopes part)
  | [] => Checks.pure.congr (by simp [Expr.partsOf])
  | e :: rest =>
    ((walkExpr_checks context e).bind (walkExprs_checks context rest)).congr
      (by simp [Expr.partsOf, or_imp, forall_and])

end

/-- What the walk knows of the path of a place. -/
def contextOf : List Encloser → Context
  | [] => .top
  | .block :: path => contextOf path
  | .function :: path => { contextOf path with body := some .function }
  | .method name clause :: path =>
    { classContext (contextOf path) clause with
      body := some (if name.lexeme = initializerName then .initializer else .method) }

variable {path : List Encloser}

theorem contextOf_cls_ne_none :
    (contextOf path).cls ≠ none ↔ ∃ method ∈ path, method.isMethod := by
  induction path with
  | nil => simp [contextOf, Context.top]
  | cons encloser path ih =>
    cases encloser with
    | block | function => simpa [contextOf, Encloser.isMethod] using ih
    | method name clause => simp [contextOf, classContext, Encloser.isMethod]

theorem contextOf_cls_eq_derived :
    (contextOf path).cls = some .derived ↔
      ∃ method, path.find? Encloser.isMethod = some method ∧ method.inherits := by
  induction path with
  | nil => simp [contextOf, Context.top]
  | cons encloser path ih =>
    cases encloser with
    | block | function => simpa [contextOf, Encloser.isMethod] using ih
    | method name clause =>
      cases clause <;> simp [contextOf, classContext, Encloser.isMethod, Encloser.inherits]

theorem contextOf_body (valued : Prop) :
    ((contextOf path).body ≠ none ∧ ((contextOf path).body = some .initializer → ¬ valued)) ↔
      ∃ routine, path.find? Encloser.isRoutine = some routine ∧
        (valued → ¬ routine.isInitializer) := by
  induction path with
  | nil => simp [contextOf, Context.top]
  | cons encloser path ih =>
    cases encloser with
    | block => simpa [contextOf, Encloser.isRoutine] using ih
    | function => simp [contextOf, Encloser.isRoutine, Encloser.isInitializer]
    | method name clause =>
      by_cases named : name.lexeme = initializerName <;>
        simp [contextOf, Encloser.isRoutine, Encloser.isInitializer, named]

theorem checkReturn_checks (path : List Encloser) (keyword : Token) (value : Option Expr) :
    Checks (checkReturn (contextOf path) keyword value) scopes scopes
      (∃ routine, path.find? Encloser.isRoutine = some routine ∧
        (value.isSome → ¬ routine.isInitializer)) := by
  have valued : Checks (if (contextOf path).body = some .initializer && value.isSome then
      report .valueFromInitializer keyword else Pure.pure ()) scopes scopes
      (¬ ((contextOf path).body = some .initializer && value.isSome) ∧ True) :=
    Checks.reportIf (by simp [Fatal]) .pure
  have both : Checks (checkReturn (contextOf path) keyword value) scopes scopes _ :=
    Checks.reportIf (by simp [Fatal]) valued
  apply both.congr
  rw [← contextOf_body]
  simp

/-- The receivers and superclasses that an expression means are there. -/
def Housed (path : List Encloser) (e : Expr) : Prop :=
  (∀ r, .this r ∈ e.parts → ∃ method ∈ path, method.isMethod) ∧
    ∀ r name, .super r name ∈ e.parts →
      ∃ method, path.find? Encloser.isMethod = some method ∧ method.inherits

/-- What the walk asks of an expression: its receivers are there, and it reads no name that is being
initialized. -/
theorem fits_iff (e : Expr) :
    (∀ part ∈ e.parts, Fits (contextOf path) scopes part) ↔
      Housed path e ∧ ∀ r, .variable r ∈ e.parts → Readable r.name.lexeme scopes := by
  unfold Housed
  simp only [← contextOf_cls_ne_none, ← contextOf_cls_eq_derived]
  constructor
  · intro fits
    exact ⟨⟨fun r => fits (.this r), fun r name => fits (.super r name)⟩,
      fun r => fits (.variable r)⟩
  · rintro ⟨⟨this, super⟩, readable⟩ part member
    cases part with
    | «variable» r => exact readable r member
    | this r => exact this r member
    | super r name => exact super r name member
    | _ => trivial

theorem operand_checks (path : List Encloser) (ready : AllReady scopes) (e : Expr) :
    Checks (walkExpr (contextOf path) e) scopes scopes (Housed path e) :=
  (walkExpr_checks _ e).congr <| (fits_iff e).trans <|
    and_iff_left fun r _ => ready.readable r.name.lexeme

theorem optional_checks (path : List Encloser) (ready : AllReady scopes) (e : Option Expr) :
    Checks (walkOptional (contextOf path) e) scopes scopes (∀ v ∈ e.toList, Housed path v) := by
  cases e with
  | none => exact Checks.pure.congr (by simp)
  | some e => exact (operand_checks path ready e).congr (by simp)

/-- In an initializer the name being initialized may not be read, unless it is a global. -/
theorem initializer_checks (path : List Encloser) (ready : AllReady scopes) (name : Token)
    (e : Option Expr) :
    Checks (walkOptional (contextOf path) e) (marked name.lexeme false scopes)
      (marked name.lexeme false scopes)
      ((∀ v ∈ e.toList, Housed path v) ∧ ∀ v ∈ e.toList, scopes ≠ [] →
        ∀ r, .variable r ∈ v.parts → r.name.lexeme ≠ name.lexeme) := by
  cases e with
  | none => exact Checks.pure.congr (by simp)
  | some e =>
    apply (walkExpr_checks _ e).congr
    rw [fits_iff]
    simp only [readable_marked ready, Option.toList_some, List.mem_singleton, forall_eq]
    grind

theorem superclass_checks (ready : AllReady scopes) (name : Token) (clause : Option Reference) :
    Checks (walkSuperclass name clause) scopes scopes
      (∀ r ∈ clause, r.name.lexeme ≠ name.lexeme) := by
  cases clause with
  | none => exact Checks.pure.congr (by simp)
  | some r =>
    have both : Checks (walkSuperclass name (some r)) scopes scopes _ :=
      Checks.reportIf (by simp [Fatal]) (readVariable_checks r)
    apply both.congr
    simp [ready.readable r.name.lexeme]

/-- The scopes around the methods of a class declare nothing that a program can declare. -/
theorem insideClass_checks {walk : Walk Unit} {p : Prop} (clause : Option Reference)
    (inner : ∀ scopes, Checks walk scopes scopes p) :
    Checks (insideClass clause walk) scopes scopes p := by
  have receiving (scopes : Scopes) (word : String) {walk : Walk Unit}
      (inner : ∀ scopes, Checks walk scopes scopes p) :
      Checks (inside do mark word true; walk) scopes scopes p :=
    (Checks.inside ((mark_checks _ word true).bind (inner _))).congr (true_and _).to_iff
  cases clause with
  | none => exact receiving scopes "this" inner
  | some r => exact receiving scopes "super" fun scopes => receiving scopes "this" inner

/-- The scopes that the walk has open at a place: none at the top level only, and none with a name
that is being initialized. -/
structure Open (path : List Encloser) (scopes : Scopes) : Prop where
  top : scopes = [] ↔ path = []
  ready : AllReady scopes

theorem Open.start : Open [] [] := ⟨iff_of_true rfl rfl, nofun⟩

theorem Open.declared (open_ : Open path scopes) (names : List Token) :
    Open path (declared names scopes) := by
  refine ⟨?_, open_.ready.declared names⟩
  rw [← open_.top]
  cases scopes with
  | nil => induction names <;> simp_all [Scope.declared, marked]
  | cons scope outer =>
    obtain ⟨scope', same⟩ := tail_declared names scope outer
    simp [same]

theorem Open.enter (scopes : Scopes) (encloser : Encloser) : Open (encloser :: path) ([] :: scopes) := by
  refine ⟨by simp, ?_⟩
  rintro _ ⟨⟩ name
  nofun

/-- The walk over a function or method: in its scope, no name may be declared twice. -/
theorem routine_checks (path : List Encloser) {kind : Body} (encloser : Encloser) (d : Declaration)
    (same : { context with body := some kind } = contextOf (encloser :: path))
    (body : ∀ scopes, Open (encloser :: path) scopes →
      Checks (walkStmts (contextOf (encloser :: path)) d.body) scopes
        (declared (d.body.flatMap Stmt.declarations) scopes)
        (Fresh (d.body.flatMap Stmt.declarations) scopes ∧
          ∀ place ∈ stmtsPlaces (encloser :: path) d.body, place.Valid)) :
    Checks (walkDeclaration context kind d) scopes scopes
      ((d.declarations.map Token.lexeme).Nodup ∧
        ∀ place ∈ stmtsPlaces (encloser :: path) d.body, place.Valid) := by
  obtain ⟨name, parameters, statements⟩ := d
  have walked := (introduceAll_checks ([] :: scopes) parameters).bind
    (body _ ((Open.enter scopes encloser).declared parameters))
  rw [← declared_append, ← same] at walked
  obtain ⟨scope, left⟩ := tail_declared
    (parameters ++ statements.flatMap Stmt.declarations) [] scopes
  rw [left] at walked
  apply (Checks.inside walked).congr
  rw [← and_assoc, ← fresh_append, fresh_open]
  rfl

theorem Place.valid_iff (s : Stmt) : Place.Valid ⟨path, s⟩ ↔
    (∀ names ∈ s.opened, (names.map Token.lexeme).Nodup) ∧ (∀ e ∈ s.operands, Housed path e) ∧
    (∀ name e, s = .var name (some e) → path ≠ [] →
      ∀ r, .variable r ∈ e.parts → r.name.lexeme ≠ name.lexeme) ∧
    (∀ keyword value, s = .return_ keyword value →
      ∃ routine, path.find? Encloser.isRoutine = some routine ∧
        (value.isSome → ¬ routine.isInitializer)) ∧
    ∀ name r methods, s = .class_ name (some r) methods → r.name.lexeme ≠ name.lexeme :=
  ⟨fun ⟨once, initialized, returned, received, inherited, derived⟩ =>
    ⟨once, fun e member => ⟨received e member, inherited e member⟩, initialized, returned, derived⟩,
  fun ⟨once, housed, initialized, returned, derived⟩ =>
    ⟨once, initialized, returned, fun e member => (housed e member).1,
      fun e member => (housed e member).2, derived⟩⟩

section Walk

-- what there is to check at a statement, and what it declares and opens
attribute [local simp] Place.valid_iff stmtPlaces stmtsPlaces methodsPlaces Stmt.declarations Stmt.opened
  Stmt.operands fresh_nil fresh_append fresh_open

mutual

theorem walkStmt_checks : ∀ (path : List Encloser) (s : Stmt) (scopes : Scopes), Open path scopes →
    Checks (walkStmt (contextOf path) s) scopes (declared s.declarations scopes)
      (Fresh s.declarations scopes ∧ ∀ place ∈ stmtPlaces path s, place.Valid)
  | path, .expression e, scopes, open_ | path, .print e, scopes, open_ =>
    (operand_checks path open_.ready e).congr (by simp)
  | path, .var name e, scopes, open_ => by
    have walked := (declare_checks scopes name).bind
      ((initializer_checks path open_.ready name e).bind (mark_checks _ name.lexeme true))
    rw [marked_marked] at walked
    apply walked.congr
    cases e <;> simp [open_.top]
  | path, .block body, scopes, open_ => by
    have walked := walkStmts_checks (.block :: path) body _ (Open.enter scopes .block)
    obtain ⟨scope, left⟩ := tail_declared (body.flatMap Stmt.declarations) [] scopes
    rw [left] at walked
    apply (Checks.inside walked).congr
    simp
  | path, .if_ condition thenBranch none, scopes, open_ => by
    have walked := (operand_checks path open_.ready condition).bind
      (walkStmt_checks path thenBranch scopes open_)
    apply walked.congr
    simp [and_left_comm]
  | path, .if_ condition thenBranch (some elseBranch), scopes, open_ => by
    have walked := (operand_checks path open_.ready condition).bind
      ((walkStmt_checks path thenBranch scopes open_).bind
        (walkStmt_checks path elseBranch _ (open_.declared thenBranch.declarations)))
    rw [← declared_append] at walked
    apply walked.congr
    simp [or_imp, forall_and, and_assoc, and_left_comm]
  | path, .while_ condition body, scopes, open_ => by
    have walked := (operand_checks path open_.ready condition).bind
      (walkStmt_checks path body scopes open_)
    apply walked.congr
    simp [and_left_comm]
  | path, .function ⟨name, parameters, body⟩, scopes, open_ => by
    have walked := (introduce_checks scopes name).bind
      (routine_checks path .function ⟨name, parameters, body⟩ rfl
        fun scopes => walkStmts_checks (.function :: path) body scopes)
    apply walked.congr
    simp
  | path, .return_ keyword value, scopes, open_ => by
    have walked := (checkReturn_checks path keyword value).bind
      (optional_checks path open_.ready value)
    apply walked.congr
    simp [and_comm]
  | path, .class_ name clause methods, scopes, open_ => by
    have walked := (introduce_checks scopes name).bind
      ((superclass_checks (open_.declared [name]).ready name clause).bind
        (insideClass_checks clause fun scopes => walkMethods_checks path clause methods scopes))
    apply walked.congr
    cases clause <;> simp [and_assoc, and_left_comm]

theorem walkStmts_checks : ∀ (path : List Encloser) (body : List Stmt) (scopes : Scopes),
    Open path scopes →
    Checks (walkStmts (contextOf path) body) scopes (declared (body.flatMap Stmt.declarations) scopes)
      (Fresh (body.flatMap Stmt.declarations) scopes ∧ ∀ place ∈ stmtsPlaces path body, place.Valid)
  | _, [], _, _ => Checks.pure.congr (by simp)
  | path, s :: rest, scopes, open_ => by
    have walked := (walkStmt_checks path s scopes open_).bind
      (walkStmts_checks path rest _ (open_.declared s.declarations))
    rw [← declared_append] at walked
    apply walked.congr
    simp [or_imp, forall_and, and_assoc, and_left_comm]

theorem walkMethods_checks : ∀ (path : List Encloser) (clause : Option Reference)
    (methods : List Declaration) (scopes : Scopes),
    Checks (walkMethods (classContext (contextOf path) clause) methods) scopes scopes
      ((∀ method ∈ methods, (method.declarations.map Token.lexeme).Nodup) ∧
        ∀ place ∈ methodsPlaces path clause methods, place.Valid)
  | _, _, [], _ => Checks.pure.congr (by simp)
  | path, clause, ⟨name, parameters, body⟩ :: rest, scopes => by
    have walked := (routine_checks path (.method name clause) ⟨name, parameters, body⟩ rfl
      fun scopes => walkStmts_checks (.method name clause :: path) body scopes).bind
      (walkMethods_checks path clause rest scopes)
    apply walked.congr
    simp [or_imp, forall_and, and_assoc, and_left_comm]

end

end Walk

/-- The faults of a program are those that the walk reported and, if it stopped, the one that stopped
it; there is none of them exactly if the program is valid. -/
theorem resolve_checks (program : List Stmt) :
    (∃ reported, (∀ e ∈ reported, ¬ Fatal e) ∧
      ((resolve program).2 = reported ∨ ∃ e, Fatal e ∧ (resolve program).2 = reported ++ [e])) ∧
    ((resolve program).2 = [] ↔ Valid program) := by
  have walked := walkStmts_checks [] program [] .start .start rfl
  have valid_iff : (Fresh (program.flatMap Stmt.declarations) [] ∧
      ∀ place ∈ stmtsPlaces [] program, place.Valid) ↔ Valid program := and_iff_right trivial
  unfold resolve
  cases ended : walkStmts .top program .start with
  | ok _ s =>
    obtain ⟨_, ⟨reported, same, mild⟩, accepts⟩ := walked.ok_of ended
    exact ⟨⟨reported, mild, .inl same⟩, accepts.trans valid_iff⟩
  | error e s =>
    obtain ⟨⟨reported, same, mild⟩, fatal, rejects⟩ := walked.error_of ended
    refine ⟨⟨reported, mild, .inr ⟨e, fatal, congrArg (· ++ [e]) same⟩⟩, ?_⟩
    exact iff_of_false (by simp) (rejects ∘ valid_iff.mpr)

/-- A program is accepted exactly if it is statically valid. Among its faults there is at most one of
those that end the walk, and all faults before the last are others. -/
theorem accepts_exactly_valid (program : List Stmt) :
    ((resolve program).2 = [] ↔ Valid program) ∧
      (resolve program).2.countP (Fatal ·) ≤ 1 ∧ ∀ e ∈ (resolve program).2.dropLast, ¬ Fatal e := by
  obtain ⟨⟨reported, mild, faults⟩, accepts⟩ := resolve_checks program
  have none : reported.countP (Fatal ·) = 0 := by simpa using mild
  refine ⟨accepts, ?_⟩
  rcases faults with all | ⟨e, _, all⟩
  · rw [all, none]
    exact ⟨Nat.zero_le 1, fun e member => mild e (List.dropLast_subset _ member)⟩
  · rw [all, List.countP_append, none, Nat.zero_add, List.dropLast_concat]
    exact ⟨List.countP_le_length, mild⟩

end LoxLang.Scope
