import LoxLang.Proofs.Evaluation.Activation
import LoxLang.Proofs.Grammar.Names
import LoxLang.Proofs.Token.Spelling

/-! The code that runs is code of the program. Whatever holds of all names and keywords of a program
holds of those in every part that a run of it enters, also in the bodies of functions and methods that
are called long after they were declared. -/
namespace LoxLang.Eval
open Grammar

variable {P : Token → Prop} {R Q : Reference → Prop}

/-- What holds of names and keywords holds of those in the part, if it is a part of a program. -/
def Task.Names (P : Token → Prop) (R Q : Reference → Prop) : Task → Prop
  | .evaluate e => exprNames R Q e
  | .evaluateAll es => exprsNames R Q es
  | .execute s => stmtNames P R Q s
  | .executeAll body => stmtsNames P R Q body
  | .loop condition body => exprNames R Q condition ∧ stmtNames P R Q body
  | .call _ _ _ | .invoke _ _ | .callFunction _ _ => True

/-- A part that is entered consists of code of the one that enters it, or is the body of a function
that is called. -/
theorem Enters.names {outer inner : Moment} (enters : Enters outer inner)
    (named : outer.task.Names P R Q)
    (body : ∀ f arguments, outer.task = .callFunction f arguments → declarationNames P R Q f.declaration) :
    inner.task.Names P R Q := by
  cases enters with
  | grouping | unary | getObject | expression | printed | block | returned => exact named
  | binaryLeft | logicalLeft | condition | callee | setObject | firstValue | firstStatement | round =>
    exact named.1
  | binaryRight | logicalRight | arguments | setValue | laterValues | laterStatements | «variable»
  | assigned | roundBody => exact named.2
  | thenValue => exact named.2.1
  | elseValue => exact named.2.2
  | called | invoked | function | initializer => trivial
  | @functionBody _ _ f arguments =>
    have declared := body f arguments rfl
    obtain ⟨id, ⟨name, parameters, statements⟩, closure, isInitializer⟩ := f
    exact declared.2.2
  | @test _ _ _ _ elseBranch => cases elseBranch <;> exact named.1
  | @thenBranch _ _ _ _ elseBranch =>
    cases elseBranch with
    | none => exact named.2.1
    | some s => exact named.2.1.1
  | elseBranch => exact named.2.2.1
  | loop => exact ⟨named.1, named.2.1⟩
  | laterRounds => exact named

theorem names_of_mem {d : Declaration} {ds : List Declaration} (named : declarationsNames P R Q ds)
    (member : d ∈ ds) : declarationNames P R Q d := by
  induction ds with
  | nil => cases member
  | cons first rest ih =>
    rcases List.mem_cons.mp member with rfl | later
    · exact named.1
    · exact ih named.2 later

theorem names_of_append {s : Stmt} {done rest : List Stmt}
    (named : stmtsNames P R Q (done ++ s :: rest)) : stmtNames P R Q s := by
  induction done with
  | nil => exact named.1
  | cons first done ih => exact ih named.2

/-- The methods that are closed are those of the class. -/
theorem declaration_of_closed {methods : List Declaration} {m last : Machine}
    {closed : List (String × Function)} (ended : closeMethods methods m = .ok closed last)
    {key : String} {f : Function} (member : (key, f) ∈ closed) : f.declaration ∈ methods := by
  induction methods generalizing m closed with
  | nil =>
    cases ended
    cases member
  | cons d rest ih =>
    obtain ⟨closure, _, _, ended⟩ := bind_eq_ok ended
    obtain ⟨g, middle, made, later⟩ := bind_eq_ok ended
    obtain ⟨others, after, closing, given⟩ := bind_eq_ok later
    cases made
    cases given
    rcases List.mem_cons.mp member with same | later
    · cases same
      exact List.mem_cons_self
    · exact List.mem_cons_of_mem _ (ih closing later)

namespace Run

variable {run : Run}

mutual

theorem Opened.names (program : stmtsNames P R Q run.program) :
    ∀ {moment scopes}, run.Opened moment scopes → moment.task.Names P R Q
  | _, _, .start (.statement here _) => names_of_append (here ▸ program)
  | _, _, .enter before enters plain =>
    enters.names (before.names program) fun f arguments called => absurd (called ▸ trivial) plain
  | _, _, .block before enters => enters.names (before.names program) nofun
  | _, _, .routine before enters made => enters.names (before.names program) fun _ _ called => by
    cases called
    exact made.names program

theorem Made.names (program : stmtsNames P R Q run.program) :
    ∀ {f scopes}, run.Made f scopes → declarationNames P R Q f.declaration
  | _, _, .declared here => here.names program
  | _, _, .bound _ _ unbound => by
    have declared := unbound.names program
    exact declared

theorem MadeMethod.names (program : stmtsNames P R Q run.program) :
    ∀ {f methods scopes}, run.MadeMethod f methods scopes → declarationNames P R Q f.declaration
  | _, _, _, .closed here closes member => by
    obtain ⟨_, _, _, _, _, _, _, closing⟩ := closes
    exact names_of_mem (here.names program).2.2 (declaration_of_closed closing member)

end

/-- No variable, parameter, function or class of the program is called by a reserved word. -/
def Plain (run : Run) : Prop :=
  stmtsNames Token.Unreserved (fun r => r.name.Unreserved) (fun _ => True) run.program

end Run

end LoxLang.Eval
