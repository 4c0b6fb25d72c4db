import LoxLang.Proofs.Evaluation.Named
import LoxLang.Proofs.Scope.Identity

/-! The references in the code that runs. They are references of the program, each of them once and in the
same order, in every part that a run enters, also in the bodies of functions and methods that are called. -/
namespace LoxLang.Eval

/-- The references in the part, in the order of the walk. -/
def Task.references : Task → List Reference
  | .evaluate e => e.references
  | .evaluateAll es => Expr.referencesOf es
  | .execute s => s.references
  | .executeAll body => Stmt.referencesOf body
  | .loop condition body => condition.references ++ body.references
  | .call _ _ _ | .invoke _ _ | .callFunction _ _ => []

variable {whole : List Reference}

/-- A part that is entered carries references of the one that enters it, or of a function that is called. -/
theorem Enters.references {outer inner : Moment} (enters : Enters outer inner)
    (carried : outer.task.references.Sublist whole)
    (body : ∀ f arguments, outer.task = .callFunction f arguments →
      f.declaration.references.Sublist whole) : inner.task.references.Sublist whole := by
  have left {one two : List Reference} (carried : (one ++ two).Sublist whole) : one.Sublist whole :=
    (List.sublist_append_left one two).trans carried
  have right {one two : List Reference} (carried : (one ++ two).Sublist whole) : two.Sublist whole :=
    (List.sublist_append_right one two).trans carried
  cases enters with
  | grouping | unary | getObject | expression | printed | block | returned | «variable» | loop
  | laterRounds => exact carried
  | binaryLeft | logicalLeft | condition | callee | firstValue | firstStatement | round | setValue
  | assigned => exact left carried
  | binaryRight | logicalRight | arguments | setObject | laterValues | laterStatements | roundBody =>
    exact right carried
  | thenValue => exact left (right carried)
  | elseValue => exact right (right carried)
  | called | invoked | function | initializer => exact List.nil_sublist whole
  | @functionBody _ _ f arguments =>
    have declared := body f arguments rfl
    obtain ⟨id, ⟨name, parameters, statements⟩, closure, isInitializer⟩ := f
    exact declared
  | @test _ _ _ _ elseBranch => cases elseBranch <;> exact left carried
  | @thenBranch _ _ _ _ elseBranch =>
    cases elseBranch with
    | none => exact right carried
    | some s => exact left (right carried)
  | elseBranch => exact right (right carried)

theorem references_of_mem {d : Declaration} {ds : List Declaration} (member : d ∈ ds) :
    d.references.Sublist (Declaration.referencesOf ds) := by
  induction ds with
  | nil => cases member
  | cons first rest ih =>
    rcases List.mem_cons.mp member with rfl | later
    · exact List.sublist_append_left _ _
    · exact (ih later).trans (List.sublist_append_right _ _)

theorem references_of_append (done : List Stmt) (s : Stmt) (rest : List Stmt) :
    s.references.Sublist (Stmt.referencesOf (done ++ s :: rest)) := by
  induction done with
  | nil => exact List.sublist_append_left _ _
  | cons first done ih => exact ih.trans (List.sublist_append_right _ _)

namespace Run

variable {run : Run}

mutual

theorem Opened.references : ∀ {moment scopes}, run.Opened moment scopes →
    moment.task.references.Sublist (Stmt.referencesOf run.program)
  | _, _, .start (@Starts.statement _ done s rest _ here _) => here ▸ references_of_append done s rest
  | _, _, .enter before enters plain =>
    enters.references before.references fun f arguments called => absurd (called ▸ trivial) plain
  | _, _, .block before enters => enters.references before.references nofun
  | _, _, .routine before enters made => enters.references before.references fun _ _ called => by
    cases called
    exact made.references

theorem Made.references : ∀ {f scopes}, run.Made f scopes →
    f.declaration.references.Sublist (Stmt.referencesOf run.program)
  | _, _, .declared here => here.references
  | _, _, .bound _ _ unbound => by
    have carried := unbound.references
    exact carried

theorem MadeMethod.references : ∀ {f methods scopes}, run.MadeMethod f methods scopes →
    f.declaration.references.Sublist (Stmt.referencesOf run.program)
  | _, _, _, .closed here closes member => by
    obtain ⟨_, _, _, _, _, _, _, closing⟩ := closes
    have listed := references_of_mem (declaration_of_closed closing member)
    exact (listed.trans (List.sublist_append_right _ _)).trans here.references

end

/-- No two references in a part share an identity. -/
theorem Opened.references_nodup {fuel : Nat} {clock : Nat → Float} {source : String} {out : Sink}
    {moment : Moment} {scopes : List Activation}
    (opened : (ofSource fuel clock source out).Opened moment scopes) :
    (moment.task.references.map Reference.id).Nodup :=
  (Scope.references_nodup (scan source).1).sublist (opened.references.map Reference.id)

end Run

end LoxLang.Eval
