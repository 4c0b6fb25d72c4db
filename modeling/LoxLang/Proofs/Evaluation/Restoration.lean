import LoxLang.Proofs.Evaluation.Moment
import LoxLang.Proofs.Evaluation.Within

/-! What every part of a run puts back. However a statement, a block or an expression ends, the
current frame, the globals, the recorded depths and the number of active calls are those from before.
So the number of active calls is at every moment the number of invocations under way, whatever calls
have ended or failed since an idle machine was started. -/
namespace LoxLang

/-- The parts of a machine that are the same before and after every part of a run. -/
structure Machine.Restored (m after : Machine) : Prop where
  current : after.current = m.current
  globals : after.globals = m.globals
  depths : after.depths = m.depths
  activeCalls : after.activeCalls = m.activeCalls

namespace Eval
open Machine

variable {α : Type}

theorem restored_steady : Steady Restored where
  refl _ := ⟨rfl, rfl, rfl, rfl⟩
  trans first second := ⟨second.current.trans first.current, second.globals.trans first.globals,
    second.depths.trans first.depths, second.activeCalls.trans first.activeCalls⟩
  newFrame _ _ _ := ⟨rfl, rfl, rfl, rfl⟩
  define _ _ _ _ := ⟨rfl, rfl, rfl, rfl⟩
  newFunction _ _ _ _ := ⟨rfl, rfl, rfl, rfl⟩
  newClass _ _ _ _ := ⟨rfl, rfl, rfl, rfl⟩
  newInstance _ _ := ⟨rfl, rfl, rfl, rfl⟩
  setField _ _ _ _ := ⟨rfl, rfl, rfl, rfl⟩
  write _ _ := ⟨rfl, rfl, rfl, rfl⟩
  readClock _ := ⟨rfl, rfl, rfl, rfl⟩
  inFrame _ _ _ inner := ⟨rfl, inner.globals, inner.depths, inner.activeCalls⟩
  inCall _ _ inner := ⟨inner.current, inner.globals, inner.depths, Nat.sub_eq_of_eq_add inner.activeCalls⟩

theorem inFrame_restored (frame : FrameId) {part : Eval α} (within : Within Restored part) :
    Within Restored (inFrame frame part) := restored_steady.calm.elsewhere within frame

theorem allRestored (fuel : Nat) : AllWithin Restored fuel := restored_steady.allWithin fuel

/-- The part ends in this machine, with a result or without. -/
def Leaves (part : Eval α) (m after : Machine) : Prop :=
  Ends part m (fun _ last => last = after) (fun _ last => last = after)

theorem Leaves.within {R : Machine → Machine → Prop} {part : Eval α} (within : Within R part)
    {m after : Machine} (leaves : Leaves part m after) : R m after := by
  have related := within m
  unfold Leaves at leaves
  unfold Ends at leaves related
  split at leaves
  · next ended => rw [ended] at related; exact leaves ▸ related
  · next ended => rw [ended] at related; exact leaves ▸ related

/-- The machines that a host can come to from `first` by evaluating expressions and executing
statements and blocks one after the other, going on after each of them whichever way it ended. -/
inductive Session (first : Machine) : Machine → Prop
  | start : Session first first
  | evaluate {m after fuel e} (before : Session first m) (leaves : Leaves (evaluate fuel e) m after) :
    Session first after
  | execute {m after fuel s} (before : Session first m) (leaves : Leaves (execute fuel s) m after) :
    Session first after
  | executeBlock {m after fuel frame body} (before : Session first m)
    (leaves : Leaves (inFrame frame (executeAll fuel body)) m after) : Session first after

theorem Session.restored {first m : Machine} (session : Session first m) : Restored first m := by
  induction session with
  | start => exact restored_steady.refl first
  | evaluate _ leaves ih =>
    exact restored_steady.trans ih (leaves.within ((allRestored _).evaluate _))
  | execute _ leaves ih =>
    exact restored_steady.trans ih (leaves.within ((allRestored _).execute _))
  | executeBlock _ leaves ih =>
    exact restored_steady.trans ih
      (leaves.within (inFrame_restored _ ((allRestored _).executeAll _)))

/-- The moment at which a host starts an expression, a statement or a block on a machine. -/
inductive HostStarts (m : Machine) : Moment → Prop
  | evaluate {fuel e} : HostStarts m ⟨fuel, .evaluate e, m⟩
  | execute {fuel s} : HostStarts m ⟨fuel, .execute s, m⟩
  | executeBlock {fuel frame body} :
    HostStarts m ⟨fuel, .executeAll body, { m with current := frame }⟩

/-- The parts under way at one moment, the innermost first: each was entered from the next one, and
the last one was started by the host. -/
inductive UnderWay (m : Machine) : List Moment → Prop
  | started {moment} (host : HostStarts m moment) : UnderWay m [moment]
  | entered {inner outer rest} (before : UnderWay m (outer :: rest)) (enters : Enters outer inner) :
    UnderWay m (inner :: outer :: rest)

/-- Whether the part is a call that has passed its checks. -/
def Moment.isInvocation (moment : Moment) : Bool :=
  match moment.task with
  | .invoke _ _ => true
  | _ => false

/-- Entering a part leaves the number of active calls alone, unless the part is an invocation. -/
theorem Enters.activeCalls {outer inner : Moment} (enters : Enters outer inner) :
    inner.machine.activeCalls =
        outer.machine.activeCalls + (if inner.isInvocation then 1 else 0) ∧
      (inner.isInvocation → outer.machine.activeCalls < maxActiveCalls) := by
  have evaluated {fuel e m v after} (ended : evaluate fuel e m = .ok v after) :
      after.activeCalls = m.activeCalls :=
    (((allRestored fuel).evaluate e m).ok_of ended).activeCalls
  have executed {fuel s m c after} (ended : execute fuel s m = .ok c after) :
      after.activeCalls = m.activeCalls :=
    (((allRestored fuel).execute s m).ok_of ended).activeCalls
  cases enters with
  | invoked checked =>
    obtain ⟨_, _, room, _⟩ := checkCall_eq_ok_iff.mp checked
    exact ⟨rfl, fun _ => room⟩
  | binaryRight first | logicalRight first | thenValue first | elseValue first | arguments first
  | setValue first | laterValues first | thenBranch first | elseBranch first | roundBody first =>
    exact ⟨evaluated first, nofun⟩
  | laterStatements first => exact ⟨executed first, nofun⟩
  | called first rest =>
    have values := (((allRestored _).evaluateAll _ _).ok_of rest).activeCalls
    exact ⟨values.trans (evaluated first), nofun⟩
  | laterRounds first _ rest => exact ⟨(executed rest).trans (evaluated first), nofun⟩
  | _ => exact ⟨rfl, nofun⟩

/-- Entering a part leaves the recorded depths alone. -/
theorem Enters.depths {outer inner : Moment} (enters : Enters outer inner) :
    inner.machine.depths = outer.machine.depths := by
  have evaluated {fuel e m v after} (ended : evaluate fuel e m = .ok v after) :
      after.depths = m.depths := (((allRestored fuel).evaluate e m).ok_of ended).depths
  have executed {fuel s m c after} (ended : execute fuel s m = .ok c after) :
      after.depths = m.depths := (((allRestored fuel).execute s m).ok_of ended).depths
  cases enters with
  | binaryRight first | logicalRight first | thenValue first | elseValue first | arguments first
  | setValue first | laterValues first | thenBranch first | elseBranch first | roundBody first =>
    exact evaluated first
  | laterStatements first => exact executed first
  | called first rest =>
    have values := (((allRestored _).evaluateAll _ _).ok_of rest).depths
    exact values.trans (evaluated first)
  | laterRounds first _ rest => exact (executed rest).trans (evaluated first)
  | _ => rfl

theorem HostStarts.activeCalls {m : Machine} {moment : Moment} (host : HostStarts m moment) :
    moment.machine.activeCalls = m.activeCalls ∧ moment.isInvocation = false := by
  cases host <;> exact ⟨rfl, rfl⟩

/-- From an idle machine, the active calls are the invocations under way. -/
theorem UnderWay.activeCalls {m : Machine} (idle : m.activeCalls = 0) {moments : List Moment}
    (under : UnderWay m moments) :
    ∀ moment ∈ moments.head?, moment.machine.activeCalls = moments.countP Moment.isInvocation ∧
      moments.countP Moment.isInvocation ≤ maxActiveCalls := by
  induction under with
  | @started moment host =>
    have counted := host.activeCalls
    simp [counted.1, counted.2, idle]
  | @entered inner outer rest _ enters ih =>
    obtain ⟨before, bound⟩ := ih outer rfl
    obtain ⟨counted, room⟩ := enters.activeCalls
    rw [before] at counted room
    simp only [List.head?_cons, Option.mem_def, Option.some.injEq, forall_eq']
    rw [List.countP_cons]
    refine ⟨counted, ?_⟩
    split
    · next invoked => exact room invoked
    · exact bound

/-- The part of the moment ends in this machine, with a result or without. -/
def Moment.LeftAt (moment : Moment) (after : Machine) : Prop :=
  match moment.task with
  | .evaluate e => Leaves (evaluate moment.fuel e) moment.machine after
  | .evaluateAll es => Leaves (evaluateAll moment.fuel es) moment.machine after
  | .call callee line arguments => Leaves (call moment.fuel callee line arguments) moment.machine after
  | .invoke callee arguments => Leaves (invoke moment.fuel callee arguments) moment.machine after
  | .callFunction f arguments => Leaves (callFunction moment.fuel f arguments) moment.machine after
  | .execute s => Leaves (execute moment.fuel s) moment.machine after
  | .executeAll body => Leaves (executeAll moment.fuel body) moment.machine after
  | .loop condition body => Leaves (loop moment.fuel condition body) moment.machine after

theorem Moment.restored {moment : Moment} {after : Machine} (left : moment.LeftAt after) :
    Restored moment.machine after := by
  obtain ⟨fuel, task, m⟩ := moment
  have all := allRestored fuel
  cases task with
  | evaluate e => exact left.within (all.evaluate e)
  | evaluateAll es => exact left.within (all.evaluateAll es)
  | call callee line arguments => exact left.within (all.call callee line arguments)
  | invoke callee arguments => exact left.within (all.invoke callee arguments)
  | callFunction f arguments => exact left.within (all.callFunction f arguments)
  | execute s => exact left.within (all.execute s)
  | executeAll body => exact left.within (all.executeAll body)
  | loop condition body => exact left.within (all.loop condition body)

end Eval
end LoxLang
