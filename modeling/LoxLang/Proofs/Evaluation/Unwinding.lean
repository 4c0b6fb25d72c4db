import LoxLang.Proofs.Evaluation.Receiver

/-! How far a `return` goes. The completion of a statement is handed on by the blocks, branches and loops
around it, up to the body of the function, and the call turns it into the value of an expression. So a
`return` ends all parts of its body and nothing else: none of them goes on, and the code that called does.
At the top level there is nothing to leave, since every `return` stands in a function or method. -/
namespace LoxLang

theorem Machine.with_current {m : Machine} {frame : FrameId} (same : m.current = frame) :
    { m with current := frame } = m := by
  subst same
  rfl

namespace Eval
open Scope

/-! ### The parts of a body -/

/-- Whether the part is one that a body consists of: a statement, some statements in turn or a loop. -/
def Task.IsStatement : Task → Prop
  | .execute _ | .executeAll _ | .loop _ _ => True
  | _ => False

/-- The one part of a body has the other for a part of itself. -/
def Continues (outer inner : Moment) : Prop :=
  outer.task.IsStatement ∧ inner.task.IsStatement ∧ Enters outer inner

/-- The part is run as a part of the body, under statements of it and in no further call. -/
def Inside (body part : Moment) : Prop := Relation.ReflTransGen Continues body part

/-- The part runs the one part first and, when that has ended, the other one: the statements behind a
statement, or the later rounds of a loop. -/
inductive Succeeds : Moment → Moment → Moment → Prop
  | statements {fuel s rest m next}
    (first : Enters ⟨fuel + 1, .executeAll (s :: rest), m⟩ ⟨fuel, .execute s, m⟩)
    (later : Enters ⟨fuel + 1, .executeAll (s :: rest), m⟩ ⟨fuel, .executeAll rest, next⟩) :
    Succeeds ⟨fuel + 1, .executeAll (s :: rest), m⟩ ⟨fuel, .execute s, m⟩ ⟨fuel, .executeAll rest, next⟩
  | rounds {fuel condition body m next last}
    (first : Enters ⟨fuel + 1, .loop condition body, m⟩ ⟨fuel, .execute body, next⟩)
    (later : Enters ⟨fuel + 1, .loop condition body, m⟩ ⟨fuel, .loop condition body, last⟩) :
    Succeeds ⟨fuel + 1, .loop condition body, m⟩ ⟨fuel, .execute body, next⟩
      ⟨fuel, .loop condition body, last⟩

/-- In the body, the second part is run after the first one has ended. -/
def RunsAfter (body part later : Moment) : Prop :=
  ∃ outer first second, Inside body outer ∧ Succeeds outer first second ∧ Inside first part ∧
    Inside second later

/-! ### Leaving a body -/

/-- How a part ends that is left with a value or by a failure. -/
def leaving (how : Except Interruption Value) (last : Machine) : EStateM.Result Interruption Machine Completion :=
  match how with
  | .ok v => .ok (.returned v) last
  | .error e => .error e last

/-- The part of a body is left in this way. -/
def Moment.LeftEarly (moment : Moment) (how : Except Interruption Value) (last : Machine) : Prop :=
  match moment.task with
  | .execute s => execute moment.fuel s moment.machine = leaving how last
  | .executeAll body => executeAll moment.fuel body moment.machine = leaving how last
  | .loop condition body => Eval.loop moment.fuel condition body moment.machine = leaving how last
  | _ => False

variable {how : Except Interruption Value} {last m : Machine}

theorem Leaves.of_leaving {part : Eval Completion} (left : part m = leaving how last) : Leaves part m last := by
  cases how with
  | ok v => exact Ends.of_ok left rfl
  | error e => exact Ends.of_error left rfl

theorem Moment.LeftEarly.current {moment : Moment} (left : moment.LeftEarly how last) :
    last.current = moment.machine.current := by
  obtain ⟨fuel, task, m⟩ := moment
  have all := allRestored fuel
  cases task with
  | execute s => exact ((Leaves.of_leaving left).within (all.execute s)).current
  | executeAll body => exact ((Leaves.of_leaving left).within (all.executeAll body)).current
  | loop condition body => exact ((Leaves.of_leaving left).within (all.loop condition body)).current
  | _ => exact left.elim

/-- Where a part of a body is left, the part around it is left in the same way, on the same machine but for
the frame that it puts back. -/
theorem Continues.leftEarly {outer inner : Moment} (continues : Continues outer inner)
    (left : inner.LeftEarly how last) :
    outer.LeftEarly how { last with current := outer.machine.current } := by
  obtain ⟨statement, part, enters⟩ := continues
  have current := left.current
  -- what ran before the part left the current frame alone, so putting it back there changes nothing
  have evaluated {fuel e m v after} (ended : evaluate fuel e m = .ok v after) : after.current = m.current :=
    (((allRestored fuel).evaluate e m).ok_of ended).current
  have executed {fuel s m c after} (ended : execute fuel s m = .ok c after) : after.current = m.current :=
    (((allRestored fuel).execute s m).ok_of ended).current
  cases enters with
  | @block fuel m body =>
    change inFrame ⟨m.store.frames.size⟩ (executeAll fuel body)
      { m with store := (m.store.newFrame (some m.current) []).2 } = _
    cases how with
    | ok v => exact inFrame_of_ok left
    | error e => exact inFrame_of_error left
  | @thenBranch fuel m condition thenBranch elseBranch a next first truthy =>
    rw [Machine.with_current (current.trans (evaluated first))]
    change (evaluate fuel condition >>= _) m = _
    rw [bind_of_ok first, if_pos truthy]
    exact left
  | @elseBranch fuel m condition thenBranch elseBranch a next first falsy =>
    rw [Machine.with_current (current.trans (evaluated first))]
    change (evaluate fuel condition >>= _) m = _
    rw [bind_of_ok first, if_neg falsy]
    exact left
  | loop =>
    rw [Machine.with_current current]
    exact left
  | @firstStatement fuel m s rest =>
    rw [Machine.with_current current]
    change (execute fuel s >>= _) m = _
    cases how with
    | ok v => exact bind_of_ok left
    | error e => exact bind_of_error left
  | @laterStatements fuel m s rest next first =>
    rw [Machine.with_current (current.trans (executed first))]
    exact (bind_of_ok first).trans left
  | @roundBody fuel m condition body a next first truthy =>
    rw [Machine.with_current (current.trans (evaluated first))]
    change (evaluate fuel condition >>= _) m = _
    rw [bind_of_ok first, if_pos truthy]
    cases how with
    | ok v => exact bind_of_ok left
    | error e => exact bind_of_error left
  | @laterRounds fuel m condition body a next after first truthy rest =>
    rw [Machine.with_current (current.trans ((executed rest).trans (evaluated first)))]
    change (evaluate fuel condition >>= _) m = _
    rw [bind_of_ok first, if_pos truthy]
    exact (bind_of_ok rest).trans left
  | functionBody => exact statement.elim
  | _ => exact part.elim

/-- So the whole body is left. -/
theorem Inside.leftEarly {body part : Moment} (inside : Inside body part) (left : part.LeftEarly how last) :
    body.LeftEarly how { last with current := body.machine.current } := by
  induction inside generalizing last with
  | refl =>
    rw [Machine.with_current left.current]
    exact left
  | tail _ step ih =>
    have whole := ih (step.leftEarly left)
    exact whole

/-- A part that is followed by another one was not left. -/
theorem Succeeds.normal {outer first second : Moment} (succeeds : Succeeds outer first second) :
    ¬ first.LeftEarly how last := by
  intro left
  cases succeeds with
  | statements _ later =>
    cases later with
    | laterStatements ended => cases how <;> cases ended.symm.trans left
  | rounds first later =>
    cases later with
    | laterRounds tested truthy ended =>
      cases first with
      | roundBody tested' _ =>
        obtain ⟨rfl, rfl⟩ := EStateM.Result.ok.inj (tested.symm.trans tested')
        cases how <;> cases ended.symm.trans left

/-- Nothing in a body is run after a part of it that is left. -/
theorem not_runsAfter {body part later : Moment} (left : part.LeftEarly how last) :
    ¬ RunsAfter body part later := by
  rintro ⟨_, first, _, _, succeeds, inside, _⟩
  exact succeeds.normal (inside.leftEarly left)

/-- A `return` leaves the statement, with its value or because its value fails. -/
theorem leftEarly_return (k : Nat) (keyword : Token) (e : Option Expr) (m : Machine) :
    ∃ how last, (Moment.mk k (.execute (.return_ keyword e)) m).LeftEarly how last := by
  cases k with
  | zero => exact ⟨.error .exhausted, m, rfl⟩
  | succ k =>
    cases e with
    | none => exact ⟨.ok .nil, m, rfl⟩
    | some e =>
      cases ended : evaluate k e m with
      | ok v last => exact ⟨.ok v, last, bind_of_ok ended⟩
      | error cause last => exact ⟨.error cause, last, bind_of_error ended⟩

/-! ### The top level -/

/-- Where no function or method is around valid statements, none of them ends with a `return`, whatever
functions it calls. -/
structure Stays (fuel : Nat) : Prop where
  execute : ∀ {path s m v last}, path.find? Encloser.isRoutine = none →
    (∀ place ∈ stmtPlaces path s, place.Valid) → execute fuel s m ≠ .ok (.returned v) last
  executeAll : ∀ {path body m v last}, path.find? Encloser.isRoutine = none →
    (∀ place ∈ stmtsPlaces path body, place.Valid) → executeAll fuel body m ≠ .ok (.returned v) last
  loop : ∀ {path condition body m v last}, path.find? Encloser.isRoutine = none →
    (∀ place ∈ stmtPlaces path body, place.Valid) →
    Eval.loop fuel condition body m ≠ .ok (.returned v) last

theorem execute_stays {fuel : Nat} (all : Stays fuel) {path : List Encloser} {s : Stmt} {v : Value}
    (outside : path.find? Encloser.isRoutine = none) (valid : ∀ place ∈ stmtPlaces path s, place.Valid) :
    execute (fuel + 1) s m ≠ .ok (.returned v) last := by
  intro ended
  cases s with
  | expression e =>
    obtain ⟨_, _, _, given⟩ := bind_eq_ok ended
    cases given
  | print e =>
    obtain ⟨_, _, _, given⟩ := bind_eq_ok ended
    obtain ⟨_, _, _, given⟩ := bind_eq_ok given
    cases given
  | var name initializer =>
    cases initializer with
    | none => cases ended
    | some e =>
      obtain ⟨_, _, _, given⟩ := bind_eq_ok ended
      cases given
  | block body =>
    obtain ⟨_, inner, _⟩ := inFrame_eq_ok ended
    have outside' : (Encloser.block :: path).find? Encloser.isRoutine = none := outside
    exact all.executeAll outside' (fun place member => valid place (List.mem_cons_of_mem _ member)) inner
  | if_ condition thenBranch elseBranch =>
    obtain ⟨test, _, _, given⟩ := bind_eq_ok ended
    cases elseBranch with
    | none =>
      split at given
      · exact all.execute outside (fun place member => valid place (List.mem_cons_of_mem _ member)) given
      · cases given
    | some s =>
      split at given
      · exact all.execute outside (fun place member =>
          valid place (List.mem_cons_of_mem _ (List.mem_append_left _ member))) given
      · exact all.execute outside (fun place member =>
          valid place (List.mem_cons_of_mem _ (List.mem_append_right _ member))) given
  | while_ condition body =>
    exact all.loop outside (fun place member => valid place (List.mem_cons_of_mem _ member)) ended
  | function d => cases ended
  | return_ keyword e =>
    obtain ⟨_, found, _⟩ := (valid _ (List.mem_singleton_self _)).returned keyword e rfl
    cases outside.symm.trans found
  | class_ name clause methods =>
    obtain ⟨_, _, _, given⟩ := bind_eq_ok ended
    cases given

/-- The fuel is what the induction is on. -/
theorem allStay (fuel : Nat) : Stays fuel := by
  induction fuel with
  | zero =>
    constructor
    all_goals
      intros
      intro ended
      cases ended
  | succ fuel ih =>
    refine ⟨execute_stays ih, ?_, ?_⟩
    · intro path body m v last outside valid ended
      cases body with
      | nil => cases ended
      | cons s rest =>
        obtain ⟨c, _, first, given⟩ := bind_eq_ok ended
        cases c with
        | normal =>
          exact ih.executeAll outside (fun place member => valid place (List.mem_append_right _ member)) given
        | returned w =>
          exact ih.execute outside (fun place member => valid place (List.mem_append_left _ member)) first
    · intro path condition body m v last outside valid ended
      obtain ⟨test, _, _, given⟩ := bind_eq_ok ended
      split at given
      · obtain ⟨c, _, first, given⟩ := bind_eq_ok given
        cases c with
        | normal => exact ih.loop outside valid given
        | returned w => exact ih.execute outside valid first
      · cases given

theorem places_of_mem {path : List Encloser} {body : List Stmt} {s : Stmt} (member : s ∈ body) :
    stmtPlaces path s ⊆ stmtsPlaces path body := by
  induction body with
  | nil => cases member
  | cons first rest ih =>
    rcases List.mem_cons.mp member with rfl | later
    · exact List.subset_append_left _ _
    · exact List.subset_append_of_subset_right _ (ih later)

/-! ### The caller -/

/-- The evaluation of the expression calls a function: the call is checked, and what is invoked is the
function or a class whose initializer it is. -/
def Calls (expression entered : Moment) : Prop :=
  ∃ called invoked, Enters expression called ∧ Enters called invoked ∧ Enters invoked entered

namespace Run

variable {run : Run}

/-- What a call yields whose body returned this value. -/
def Yields (run : Run) (s : Store) (f : Function) (v w : Value) : Prop :=
  (¬ f.isInitializer → w = v) ∧ (f.isInitializer → ∃ i, run.Receives s f i ∧ w = .instance_ i)

variable (fresh : run.Fresh) {n : Nat} {f : Function} {arguments : List Value} {m last : Machine} {v w : Value}
include fresh

theorem Fresh.callFunction_returned (reached : run.Reaches ⟨n + 1, .callFunction f arguments, m⟩)
    (ended : executeAll n f.declaration.body (bodyEntered f arguments m) = .ok (.returned v) last) :
    ∃ w, callFunction (n + 1) f arguments m = .ok w { last with current := m.current } ∧
      run.Yields m.store f v w := by
  by_cases initializer : f.isInitializer
  · obtain ⟨i, receives, same⟩ := fresh.callFunction_initializer reached initializer
    rw [ended] at same
    exact ⟨_, same, absurd initializer, fun _ => ⟨i, receives, rfl⟩⟩
  · refine ⟨v, ?_, fun _ => rfl, fun other => absurd other initializer⟩
    rw [callFunction_of_ok ended, if_neg initializer]
    rfl

/-- A function or class that is invoked yields what the function that it calls does: if it is a class, its
initializer yields the instance. -/
theorem Fresh.invoke_of_callFunction {g : Callable} {values : List Value} {before : Machine}
    (reached : run.Reaches ⟨n + 1, .invoke g values, before⟩)
    (entered : Enters ⟨n + 1, .invoke g values, before⟩ ⟨n, .callFunction f arguments, m⟩)
    (ended : callFunction n f arguments m = .ok w last) : invoke (n + 1) g values before = .ok w last := by
  cases n with
  | zero => cases ended
  | succ n =>
    have called := reached.enter entered
    cases entered with
    | function => exact ended
    | @initializer _ _ c _ method i _ made after found new bind =>
      obtain ⟨_, _, sound⟩ := fresh.sound reached
      have initializer : method.isInitializer := ClassSound.isInitializer sound.task.1 found
      obtain ⟨held, flag⟩ := Store.of_bindMethod bind
      obtain ⟨i', receives, same⟩ := fresh.callFunction_initializer called (flag.trans initializer)
      obtain rfl : i' = i := by
        cases receives.holds.symm.trans held
        rfl
      have yielded : w = .instance_ i' := by
        have given := ended
        rw [same] at given
        split at given
        · cases given
          rfl
        · cases given
      have making : onStore (fun s => s.newInstance c) before = .ok i' { before with store := made } := by
        simp only [onStore, new]
      have binding : onStore (fun s => s.bindMethod method i') { before with store := made } =
          .ok f { before with store := after } := by
        simp only [onStore, bind]
      rw [invoke.eq_def, yielded]
      dsimp only
      rw [bind_of_ok making, found]
      dsimp only
      rw [bind_of_ok binding]
      exact bind_of_ok ended

/-- The value of the call is that of the expression, and the caller is back in its frame, with as many calls
active as before. -/
theorem Fresh.evaluate_of_callFunction {N : Nat} {e : Expr} {m₀ : Machine}
    (reached : run.Reaches ⟨N, .evaluate e, m₀⟩)
    (calls : Calls ⟨N, .evaluate e, m₀⟩ ⟨n, .callFunction f arguments, m⟩)
    (ended : callFunction n f arguments m = .ok w last) :
    evaluate N e m₀ = .ok w { last with current := m₀.current, activeCalls := m₀.activeCalls } := by
  obtain ⟨_, invoked, calling, invoking, entering⟩ := calls
  have shape : ∃ g values before, invoked = ⟨n + 1, .invoke g values, before⟩ := by
    cases entering <;> exact ⟨_, _, _, rfl⟩
  obtain ⟨g, values, before, rfl⟩ := shape
  have given := fresh.invoke_of_callFunction ((reached.enter calling).enter invoking) entering ended
  cases invoking with
  | @invoked _ m₁ callee _ _ _ checked =>
    cases calling with
    | @called _ _ function paren expressions _ _ _ _ first rest =>
      have passed : call (n + 2) callee paren.line values m₁ =
          .ok w { last with activeCalls := last.activeCalls - 1 } := by
        rw [call, bind_of_ok checked]
        exact inCall_of_ok given
      have whole : evaluate (n + 3) (.call function paren expressions) m₀ =
          .ok w { last with activeCalls := last.activeCalls - 1 } := by
        change (evaluate (n + 2) function >>= _) m₀ = _
        rw [bind_of_ok first, bind_of_ok rest]
        exact passed
      have restored := ((allRestored _).evaluate _ m₀).ok_of whole
      rw [whole, ← restored.current, ← restored.activeCalls]

end Run

/-- In a program that is read and resolved without a fault, no statement of the top level ends with a
`return`. Where the body of a function comes to a `return`, under whatever statements of it, nothing in the
body is run after that. If the `return` gives a value, the call yields it, or the instance if the function
is an initializer; and the expression that called has that value, on the machine that the `return` left, but
for the frame and the number of active calls, which are those of the caller. -/
theorem return_unwinds_to_nearest_call {fuel : Nat} {clock : Nat → Float} {source : String} {out : Sink}
    (clean : (resolve (Program.read source).statements).2 = []) :
    let run := Run.ofSource fuel clock source out
    (∀ s ∈ (Program.read source).statements, ∀ n m v last, execute n s m ≠ .ok (.returned v) last) ∧
    ∀ {n f arguments m k keyword e reached},
      run.Reaches ⟨n + 1, .callFunction f arguments, m⟩ →
      Inside ⟨n, .executeAll f.declaration.body, bodyEntered f arguments m⟩
        ⟨k, .execute (.return_ keyword e), reached⟩ →
      (∀ later, ¬ RunsAfter ⟨n, .executeAll f.declaration.body, bodyEntered f arguments m⟩
        ⟨k, .execute (.return_ keyword e), reached⟩ later) ∧
      ∀ {v last}, execute k (.return_ keyword e) reached = .ok (.returned v) last →
        ∃ w, run.Yields m.store f v w ∧
          callFunction (n + 1) f arguments m = .ok w { last with current := m.current } ∧
          ∀ {N calling m₀}, run.Reaches ⟨N, .evaluate calling, m₀⟩ →
            Calls ⟨N, .evaluate calling, m₀⟩ ⟨n + 1, .callFunction f arguments, m⟩ →
            evaluate N calling m₀ =
              .ok w { last with current := m₀.current, activeCalls := m₀.activeCalls } := by
  intro run
  have fresh : run.Fresh := Run.fresh_ofSource fuel clock source out
  refine ⟨?_, ?_⟩
  · intro s member n m v last
    exact (allStay n).execute rfl fun place placed =>
      (resolve_checks _).2.mp clean place (places_of_mem member placed)
  · intro n f arguments m k keyword e reached called inside
    refine ⟨fun later => ?_, ?_⟩
    · obtain ⟨_, _, left⟩ := leftEarly_return k keyword e reached
      exact not_runsAfter left
    · intro v last returned
      have left : (Moment.mk k (.execute (.return_ keyword e)) reached).LeftEarly (.ok v) last := returned
      obtain ⟨w, ended, yields⟩ := fresh.callFunction_returned called (inside.leftEarly left)
      refine ⟨w, yields, ended, ?_⟩
      intro N calling m₀ before calls
      have evaluated := fresh.evaluate_of_callFunction before calls ended
      exact evaluated

/-- A `return` in a loop that would never end. -/
theorem return_ends_endless_loop :
    let source := "fun f()\x7bwhile(true)\x7breturn true;\x7d\x7df();"
    let run := Run.ofSource 12 (fun _ => 0) source (.ofCapacity none)
    (resolve (Program.read source).statements).2 = [] ∧
      ∃ n f m k keyword e reached v last, run.Reaches ⟨n + 1, .callFunction f [], m⟩ ∧
        Inside ⟨n, .executeAll f.declaration.body, bodyEntered f [] m⟩
          ⟨k, .execute (.return_ keyword e), reached⟩ ∧
        execute k (.return_ keyword e) reached = .ok (.returned v) last ∧
        (∀ later, ¬ RunsAfter ⟨n, .executeAll f.declaration.body, bodyEntered f [] m⟩
          ⟨k, .execute (.return_ keyword e), reached⟩ later) ∧
        ∃ w N calling m₀, run.Yields m.store f v w ∧ run.Reaches ⟨N, .evaluate calling, m₀⟩ ∧
          Calls ⟨N, .evaluate calling, m₀⟩ ⟨n + 1, .callFunction f [], m⟩ ∧
          evaluate N calling m₀ =
            .ok w { last with current := m₀.current, activeCalls := m₀.activeCalls } := by
  intro source run
  let name : Token := ⟨.identifier, "f", 1⟩
  let keyword : Token := ⟨.keyword .return_, "return", 1⟩
  let true_ : Token := ⟨.keyword .true_, "true", 1⟩
  let opening : Token := ⟨.symbol .leftBrace, "\x7b", 1⟩
  let closing : Token := ⟨.symbol .rightBrace, "\x7d", 1⟩
  let left : Token := ⟨.symbol .leftParen, "(", 1⟩
  let right : Token := ⟨.symbol .rightParen, ")", 1⟩
  let semicolon : Token := ⟨.symbol .semicolon, ";", 1⟩
  let tokens := [⟨.keyword .fun_, "fun", 1⟩, name, left, right, opening, ⟨.keyword .while_, "while", 1⟩, left,
    true_, right, opening, keyword, true_, semicolon, closing, closing, name, left, right, semicolon,
    ⟨.endOfFile, "", 1⟩]
  let holds : Expr := .literal (.boolean true)
  let d : Declaration := ⟨name, [], [.while_ holds (.block [.return_ keyword (some holds)])]⟩
  let calling : Expr := .call (.variable ⟨0, name⟩) right []
  let program : List Stmt := [.function d, .expression calling]
  have scanned : (scan source).1 = tokens := by decide +kernel
  have parsed : (Grammar.readProgram tokens).1 = program := by cbv
  have read : (Program.read source).statements = program := Program.statements_of_scan scanned parsed
  have clean : (resolve (Program.read source).statements).2 = [] := by
    rw [read]
    rfl
  -- The machine is followed for any depths that leave the name of the function unlocated.
  have runs (depths : Depths) (unlocated : depths[(0 : Nat)]? = none) :
      let run : Run := ⟨12, program, .start depths (.ofCapacity none) fun _ => 0⟩
      ∃ f m m₀, run.Reaches ⟨11, .evaluate calling, m₀⟩ ∧
        Calls ⟨11, .evaluate calling, m₀⟩ ⟨8, .callFunction f [], m⟩ ∧ f.declaration = d := by
    intro run
    let f : Function := ⟨⟨0⟩, d, ⟨0⟩, false⟩
    let globals : Frame := ⟨[("clock", .native .clock), ("f", .function f)], none⟩
    let declared : Machine := { run.first with store := ⟨#[globals], #[], 1, 0⟩ }
    have started : run.Reaches ⟨12, .execute (.expression calling), declared⟩ :=
      .start (@Run.Starts.statement _ [_] _ _ _ rfl rfl)
    have callee : evaluate 10 (.variable ⟨0, name⟩) declared = .ok (.function f) declared :=
      lookUp_of_unlocated unlocated rfl
    exact ⟨f, _, declared, started.enter .expression,
      ⟨_, _, .called callee rfl, .invoked rfl, .function⟩, rfl⟩
  have same : run = ⟨12, program, .start (resolve program).1 (.ofCapacity none) fun _ => 0⟩ :=
    Run.ofSource_eq read _ _ _
  obtain ⟨f, m, m₀, before, calls, declaration⟩ := runs (resolve program).1 rfl
  rw [← same] at before
  have called : run.Reaches ⟨7 + 1, .callFunction f [], m⟩ := by
    obtain ⟨_, _, calling, invoking, entering⟩ := calls
    exact ((before.enter calling).enter invoking).enter entering
  have inside : Inside ⟨7, .executeAll f.declaration.body, bodyEntered f [] m⟩
      ⟨2, .execute (.return_ keyword (some holds)), blockEntered (bodyEntered f [] m)⟩ := by
    rw [declaration]
    have step {outer inner : Moment} (enters : Enters outer inner) (statement : outer.task.IsStatement)
        (part : inner.task.IsStatement) : Continues outer inner := ⟨statement, part, enters⟩
    have loop : Inside ⟨7, .executeAll d.body, bodyEntered f [] m⟩ _ :=
      (Relation.ReflTransGen.single (step .firstStatement trivial trivial)).tail (step .loop trivial trivial)
    have round := loop.tail (step (.roundBody rfl rfl) trivial trivial)
    exact (round.tail (step .block trivial trivial)).tail (step .firstStatement trivial trivial)
  have returned : execute 2 (.return_ keyword (some holds)) (blockEntered (bodyEntered f [] m)) =
    .ok (.returned (.boolean true)) _ := rfl
  obtain ⟨_, unwinds⟩ := @return_unwinds_to_nearest_call 12 (fun _ => 0) source (.ofCapacity none) clean
  obtain ⟨last, yields⟩ := unwinds called inside
  obtain ⟨w, yielded, _, evaluated⟩ := yields returned
  exact ⟨clean, 7, f, m, 2, keyword, some holds, _, _, _, called, inside, returned, last,
    w, 11, calling, m₀, yielded, before, calls, evaluated before calls⟩

end Eval
end LoxLang
