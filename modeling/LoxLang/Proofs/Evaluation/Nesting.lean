import LoxLang.Proofs.Evaluation.Activation
import LoxLang.Proofs.Evaluation.Restoration
import LoxLang.Proofs.Store.Growth

/-! Parts inside parts of a run. Going into a part leaves the globals and the frames in the store as they
are, and goes from the current frame into a new one only where a block or a call does so. -/
namespace LoxLang

/-- What encloses a frame stays the same. -/
theorem Store.Grown.ancestor? {s after : Store} (grown : s.Grown after) {d : Nat}
    {frame holder : FrameId} (found : s.ancestor? d frame = some holder) :
    after.ancestor? d frame = some holder := by
  induction d generalizing frame with
  | zero => exact found
  | succ d ih =>
    obtain ⟨outer, enclosed, around⟩ := Option.bind_eq_some_iff.mp found
    have kept := grown.enclosing frame (Store.enclosing?_some_lt enclosed)
    rw [Store.ancestor?, kept, enclosed, Option.bind_some]
    exact ih around

namespace Eval

/-- What holds of the machine on which a part is entered, beside that of the part that enters it. -/
structure Entered (outer inner : Moment) : Prop where
  globals : inner.machine.globals = outer.machine.globals
  grown : outer.machine.store.Grown inner.machine.store
  current : ¬ outer.task.Opens → inner.machine.current = outer.machine.current

theorem Enters.entered {outer inner : Moment} (enters : Enters outer inner) : Entered outer inner := by
  have evaluated {outer inner : Moment} {fuel e v}
      (ended : evaluate fuel e outer.machine = .ok v inner.machine) : Entered outer inner :=
    have restored := ((allRestored fuel).evaluate e _).ok_of ended
    ⟨restored.globals, ((growing_steady.allWithin fuel).evaluate e _).ok_of ended,
      fun _ => restored.current⟩
  cases enters with
  | binaryRight first | logicalRight first | thenValue first | elseValue first | arguments first
  | setValue first | laterValues first | thenBranch first | elseBranch first | roundBody first =>
    exact evaluated first
  | @laterStatements fuel _ s _ _ first =>
    have restored := ((allRestored fuel).execute s _).ok_of first
    exact ⟨restored.globals, ((growing_steady.allWithin fuel).execute s _).ok_of first,
      fun _ => restored.current⟩
  | @called fuel _ f _ arguments _ _ _ _ first rest =>
    have restored := ((allRestored fuel).evaluate f _).ok_of first
    have restored' := ((allRestored fuel).evaluateAll arguments _).ok_of rest
    have grown := ((growing_steady.allWithin fuel).evaluate f _).ok_of first
    exact ⟨restored'.globals.trans restored.globals,
      grown.trans (((growing_steady.allWithin fuel).evaluateAll arguments _).ok_of rest),
      fun _ => restored'.current.trans restored.current⟩
  | @laterRounds fuel _ e s _ _ _ first _ rest =>
    have restored := ((allRestored fuel).evaluate e _).ok_of first
    have restored' := ((allRestored fuel).execute s _).ok_of rest
    have grown := ((growing_steady.allWithin fuel).evaluate e _).ok_of first
    exact ⟨restored'.globals.trans restored.globals,
      grown.trans (((growing_steady.allWithin fuel).execute s _).ok_of rest),
      fun _ => restored'.current.trans restored.current⟩
  | functionBody | block => exact ⟨rfl, .newFrame _ _ _, fun plain => absurd trivial plain⟩
  | @initializer _ m _ _ method i bound made after _ fresh bind =>
    have instantiated : m.store.Grown made := by
      cases fresh
      exact .of_frames rfl
    have framed : made.Grown after := by
      cases bind
      exact .trans (.newFrame made (some method.closure) [("this", .instance_ i)]) (.of_frames rfl)
    exact ⟨rfl, instantiated.trans framed, fun _ => rfl⟩
  | _ => exact ⟨rfl, .refl _, fun _ => rfl⟩

/-- The globals are there, and nothing encloses them. -/
structure Rooted (globals : FrameId) (m : Machine) : Prop where
  same : m.globals = globals
  there : globals.index < m.store.frames.size
  outermost : m.store.enclosing? globals = none

theorem Rooted.onward {globals : FrameId} {m after : Machine} (rooted : Rooted globals m)
    (same : after.globals = m.globals) (grown : m.store.Grown after.store) : Rooted globals after where
  same := same.trans rooted.same
  there := Nat.lt_of_lt_of_le rooted.there grown.size
  outermost := (grown.enclosing globals rooted.there).trans rooted.outermost

theorem Run.Reaches.rooted {run : Run} {globals : FrameId} {moment : Moment}
    (reached : run.Reaches moment) (rooted : Rooted globals run.first) :
    Rooted globals moment.machine := by
  induction reached with
  | start starts =>
    cases starts with
    | statement _ before =>
      exact rooted.onward (((restored_steady.interpret _ _) run.first).ok_of before).globals
        (((growing_steady.interpret _ _) run.first).ok_of before)
  | enter _ enters ih => exact ih.onward enters.entered.globals enters.entered.grown

/-- The second moment is inside the part of the first one, in this many blocks more and in no call. -/
inductive Nested (outer : Moment) : Nat → Moment → Prop
  | here : Nested outer 0 outer
  | plain {d now inner} (before : Nested outer d now) (enters : Enters now inner)
    (plain : ¬ now.task.Opens) : Nested outer d inner
  | block {d fuel body m inner} (before : Nested outer d ⟨fuel, .execute (.block body), m⟩)
    (enters : Enters ⟨fuel, .execute (.block body), m⟩ inner) : Nested outer (d + 1) inner

/-- That many frames out is the frame of the part. -/
theorem Nested.ancestor? {outer now : Moment} {d : Nat} (nested : Nested outer d now) :
    now.machine.store.ancestor? d now.machine.current = some outer.machine.current := by
  induction nested with
  | here => rfl
  | plain _ enters plain ih =>
    rw [enters.entered.current plain]
    exact enters.entered.grown.ancestor? ih
  | @block _ _ _ m _ _ enters ih =>
    have found := enters.entered.grown.ancestor? ih
    cases enters with
    | block =>
      have enclosed : (blockEntered m).store.enclosing? ⟨m.store.frames.size⟩ = some m.current :=
        (Store.enclosing?_newFrame m.store _ _ _).trans (if_pos rfl)
      exact (congrArg (Option.bind · _) enclosed).trans found

end Eval
end LoxLang
