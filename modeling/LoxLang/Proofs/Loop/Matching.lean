import LoxLang.Proofs.Loop.Spacing
import LoxLang.Proofs.Renaming.Evaluation

/-! A loop whose rounds are spaced out beside the loop itself. On machines that are alike both do the same,
where the scope of a round is one that the second run does not have. -/
namespace LoxLang

namespace Eval

variable {α : Type} {part : Eval α} {m after : Machine}

theorem inScope_of_ok {a : α} (ended : part (blockEntered m) = .ok a after) :
    inScope part m = .ok a { after with current := m.current } := by
  have framed : inFrame ⟨m.store.frames.size⟩ part
      { m with store := (m.store.newFrame (some m.current) []).2 } = _ := inFrame_of_ok ended
  exact framed

theorem inScope_of_error {e : Interruption} (ended : part (blockEntered m) = .error e after) :
    inScope part m = .error e { after with current := m.current } := by
  have framed : inFrame ⟨m.store.frames.size⟩ part
      { m with store := (m.store.newFrame (some m.current) []).2 } = _ := inFrame_of_error ended
  exact framed

end Eval

namespace Comparison
open Grammar Eval Renaming

variable {ρ : Comparison} {w : Layout} {marks : List Bool} {marked : Bool}

namespace Matches

variable {α α' : Type} {R : Layout → α → α' → Prop} {part : Eval α} {part' : Eval α'}

/-- What both runs have of a new scope: the frames that they make for it. -/
def framePlan (marked : Bool) (m m' : Machine) : FramePlan :=
  ⟨marked, some m.current, some ⟨⟨m'.store.frames.size⟩, some m'.current⟩⟩

/-- A scope that both runs have. -/
theorem inScope {m m' : Machine} (alike : ρ.MachinesAlike w marks m m') (stays : ρ.Stays marked)
    (inner : ρ.Matches (w ++ [framePlan marked m m']) (marked :: marks) R part part') :
    Pairs (inScope part) (Eval.inScope part') m m'
      (ρ.ResultsAlike (w ++ [framePlan marked m m']) marks R)
      (ρ.FailuresAlike (w ++ [framePlan marked m m']) marks) := by
  have growth : w <+: w ++ [framePlan marked m m'] := List.prefix_append _ _
  have framed : ρ.StoresAlike (w ++ [framePlan marked m m']) (m.store.newFrame (some m.current) []).2
      (m'.store.newFrame (some m'.current) []).2 := alike.store.newFrame fun _ _ => .none
  have chain : ρ.Chain (w ++ [framePlan marked m m']) ⟨m.store.frames.size⟩ ⟨m'.store.frames.size⟩
      (marked :: marks) := by
    refine .inside ?_ stays (alike.chain.grown growth)
    rw [alike.store.size, List.getElem?_concat_length]
    rfl
  have entered : ρ.MachinesAlike (w ++ [framePlan marked m m']) (marked :: marks) (blockEntered m)
      (blockEntered m') :=
    { alike with chain := chain, top := alike.top.grown growth, store := framed }
  rcases (inner _ _ entered).ends with
    ⟨a, after, a', after', ended, ended', w', grown, alike', related⟩ |
    ⟨e, after, e', after', ended, ended', interruptions, w', grown, alike'⟩
  · exact .of_ok (inScope_of_ok ended) (inScope_of_ok ended')
      ⟨w', grown, { alike' with chain := alike.chain.grown (growth.trans grown) }, related⟩
  · exact .of_error (inScope_of_error ended) (inScope_of_error ended')
      ⟨interruptions, w', grown, { alike' with chain := alike.chain.grown (growth.trans grown) }⟩

/-- A scope that only the first run has. -/
theorem inScope_omitted (omits : ρ.omits = true) (restored : Within Machine.Restored part')
    (inner : ∀ w', w <+: w' → ρ.Matches w' (true :: marks) R part part') :
    ρ.Matches w marks R (Eval.inScope part) part' := by
  intro m m' alike
  let plan : FramePlan := ⟨true, some m.current, none⟩
  have growth : w <+: w ++ [plan] := List.prefix_append _ _
  have framed : ρ.StoresAlike (w ++ [plan]) (m.store.newFrame (some m.current) []).2 m'.store :=
    alike.store.newFrame_omitted
  have chain : ρ.Chain (w ++ [plan]) ⟨m.store.frames.size⟩ m'.current (true :: marks) := by
    refine .omitted ?_ omits (alike.chain.grown growth)
    rw [alike.store.size, List.getElem?_concat_length]
  have entered : ρ.MachinesAlike (w ++ [plan]) (true :: marks) (blockEntered m) m' :=
    { alike with chain := chain, top := alike.top.grown growth, store := framed }
  rcases (inner _ growth _ _ entered).ends with
    ⟨a, after, a', after', ended, ended', w', grown, alike', related⟩ |
    ⟨e, after, e', after', ended, ended', interruptions, w', grown, alike'⟩
  · have same : after'.current = m'.current := ((restored m').ok_of ended').current
    have around := alike.chain.grown (growth.trans grown)
    rw [← same] at around
    exact .of_ok (inScope_of_ok ended) ended'
      ⟨w', growth.trans grown, { alike' with chain := around }, related⟩
  · have same : after'.current = m'.current := ((restored m').error_of ended').current
    have around := alike.chain.grown (growth.trans grown)
    rw [← same] at around
    exact .of_error (inScope_of_error ended) ended'
      ⟨interruptions, w', growth.trans grown, { alike' with chain := around }⟩

theorem andThen {first rest first' rest' : Eval Completion}
    (one : ρ.Matches w marks ρ.CompletionAlike first first')
    (two : ∀ w', w <+: w' → ρ.Matches w' marks ρ.CompletionAlike rest rest') :
    ρ.Matches w marks ρ.CompletionAlike (andThen first rest) (Eval.andThen first' rest') := by
  apply one.bind
  intro w' completion completion' grown completions
  cases completions with
  | normal => exact two w' grown
  | returned value => exact .pure (.returned value)

theorem rounds {test test' : Eval Bool} {round round' : Eval Completion}
    (tests : ∀ w, ρ.Matches w marks (fun _ b b' => b' = b) test test')
    (once : ∀ w, ρ.Matches w marks ρ.CompletionAlike round round') (n : Nat) :
    ∀ w, ρ.Matches w marks ρ.CompletionAlike (rounds test round n) (Eval.rounds test' round' n) := by
  induction n with
  | zero => exact fun _ => .exhausted
  | succ n ih =>
    intro w
    apply (tests w).bind
    rintro w' goesOn _ _ rfl
    split
    · exact (once w').andThen fun w'' _ => ih w''
    · exact .pure .normal

end Matches

end Comparison

namespace ForLoop
open Grammar Eval Comparison

variable {ρ : Comparison} {w : Layout} {marks : List Bool} {l l' : ForLoop} {n : Nat}

/-- The marks around the body and the increment: the scope of a round is not there in the second run. -/
def roundMarks (l : ForLoop) (marks : List Bool) : List Bool :=
  if l.increment.isSome then true :: marks else marks

/-- What is repeated is alike in both loops, inside scopes with these marks. -/
structure RepeatsAlike (ρ : Comparison) (marks : List Bool) (l l' : ForLoop) : Prop where
  condition : ρ.Alike marks (.clause l.condition) (.clause l'.condition)
  body : ρ.Alike (l.roundMarks marks) (.stmt l.body) (.stmt l'.body)
  increment : ρ.Alike (l.roundMarks marks) (.clause l.increment) (.clause l'.increment)

theorem round_restored (l : ForLoop) (n : Nat) : Within Machine.Restored (l.round n) := by
  apply restored_steady.calm.bind ((allRestored n).execute l.body)
  intro completion
  cases completion with
  | returned v => exact restored_steady.calm.pure _
  | normal =>
    dsimp only
    unfold step
    cases l.increment with
    | none => exact restored_steady.calm.pure _
    | some e =>
      apply restored_steady.calm.bind ((allRestored n).evaluate e)
      exact fun _ => restored_steady.calm.pure _

variable (omits : ρ.omits = true) (unreserved : ρ.Unreserved) (alike : RepeatsAlike ρ marks l l')
include unreserved

theorem test_matches (condition : ρ.Alike marks (.clause l.condition) (.clause l'.condition)) :
    ρ.Matches w marks (fun _ b b' => b' = b) (l.test n) (l'.test n) := by
  unfold test
  generalize l.condition = e at *
  generalize l'.condition = e' at *
  cases condition with
  | noClause => exact .pure rfl
  | someClause value =>
    apply ((allMatch unreserved n).evaluate value).bind
    exact fun _ _ _ _ values => .pure values.isTruthy

theorem step_matches (increment : ρ.Alike marks (.clause l.increment) (.clause l'.increment)) :
    ρ.Matches w marks ρ.CompletionAlike (l.step n) (l'.step n) := by
  unfold step
  generalize l.increment = e at *
  generalize l'.increment = e' at *
  cases increment with
  | noClause => exact .pure .normal
  | someClause value =>
    apply ((allMatch unreserved n).evaluate value).bind
    exact fun _ _ _ _ _ => .pure .normal

include omits in
/-- A round in a scope of its own does what a round does. -/
theorem round_matches (alike : RepeatsAlike ρ marks l l') :
    ρ.Matches w marks ρ.CompletionAlike (l.spacedRound n) (l'.round n) := by
  obtain ⟨_, body, increment⟩ := alike
  unfold spacedRound
  cases present : l.increment with
  | none =>
    have absent : l'.increment = none := by
      rw [present] at increment
      generalize l'.increment = e' at increment
      cases increment
      rfl
    have step : l'.step n = return .normal := by
      unfold step
      rw [absent]
    unfold round
    rw [step, andThen_normal]
    have scope : l.roundMarks marks = marks := by simp [roundMarks, present]
    rw [scope] at body
    exact (allMatch unreserved n).execute body
  | some e =>
    have scope : l.roundMarks marks = true :: marks := by simp [roundMarks, present]
    rw [scope] at body increment
    apply Matches.inScope_omitted omits (l'.round_restored n)
    intro w' _
    apply ((allMatch unreserved n).execute body).andThen
    exact fun w'' _ => step_matches unreserved increment

include omits in
theorem rounds_match (alike : RepeatsAlike ρ marks l l') (more : Nat) :
    ρ.Matches w marks ρ.CompletionAlike (rounds (l.test n) (l.spacedRound n) more)
      (rounds (l'.test n) (l'.round n) more) :=
  Matches.rounds (fun _ => test_matches unreserved alike.condition)
    (fun _ => round_matches omits unreserved alike) more w

/-- What both runs have of the scope that the loop opens, if it has an initializer. -/
def scope (l : ForLoop) (m m' : Machine) : Layout :=
  match l.initializer with
  | none => []
  | some _ => [Matches.framePlan false m m']

/-- The parts of both loops are alike, inside scopes with these marks. -/
inductive PartsAlike (ρ : Comparison) (marks : List Bool) (l l' : ForLoop) : Prop
  | bare (absent : l.initializer = none) (absent' : l'.initializer = none)
    (repeats : RepeatsAlike ρ marks l l') : PartsAlike ρ marks l l'
  | opening {first first'} (present : l.initializer = some first) (present' : l'.initializer = some first')
    (initializer : ρ.Alike (false :: marks) (.stmt first) (.stmt first'))
    (repeats : RepeatsAlike ρ (false :: marks) l l') : PartsAlike ρ marks l l'

include omits in
/-- The loop with its rounds spaced out does what the loop does. -/
theorem spaced_pairs (parts : PartsAlike ρ marks l l') {m m' : Machine}
    (machines : ρ.MachinesAlike w marks m m') :
    Pairs (l.spaced n) (l'.direct n) m m' (ρ.ResultsAlike (w ++ l.scope m m') marks ρ.CompletionAlike)
      (ρ.FailuresAlike (w ++ l.scope m m') marks) := by
  unfold spaced direct withRounds scope
  cases parts with
  | bare absent absent' repeats =>
    rw [absent, absent', List.append_nil]
    exact rounds_match omits unreserved repeats n m m' machines
  | opening present present' initializer repeats =>
    rw [present, present']
    apply Matches.inScope machines stays_false
    apply ((allMatch unreserved n).execute initializer).andThen
    exact fun w' _ => rounds_match omits unreserved repeats n

end ForLoop
end LoxLang
