/-! How a stateful part ends. Reading, the walk over scopes and evaluation all are parts that take a
state and end in another one, with a result or with a failure; nothing is rolled back when a part
fails. `Ends` says what holds at either end, and goes through a sequence step by step. -/
namespace LoxLang

variable {ε σ α β : Type}

/-- From this state the part gives a result for which `ok` holds, or fails so that `failed` holds. -/
def Ends (part : EStateM ε σ α) (s : σ) (ok : α → σ → Prop) (failed : ε → σ → Prop) : Prop :=
  match part s with
  | .ok a after => ok a after
  | .error e after => failed e after

namespace Ends

variable {part : EStateM ε σ α} {next : α → EStateM ε σ β} {s : σ}
  {ok ok' : α → σ → Prop} {failed failed' : ε → σ → Prop} {done : β → σ → Prop}

theorem of_ok {a : α} {after : σ} (ended : part s = .ok a after) (holds : ok a after) :
    Ends part s ok failed := by
  unfold Ends
  rw [ended]
  exact holds

theorem of_error {e : ε} {after : σ} (ended : part s = .error e after) (holds : failed e after) :
    Ends part s ok failed := by
  unfold Ends
  rw [ended]
  exact holds

theorem of_forall (onOk : ∀ a after, part s = .ok a after → ok a after)
    (onError : ∀ e after, part s = .error e after → failed e after) : Ends part s ok failed := by
  unfold Ends
  split
  · next ended => exact onOk _ _ ended
  · next ended => exact onError _ _ ended

theorem ok_of (ends : Ends part s ok failed) {a : α} {after : σ} (ended : part s = .ok a after) :
    ok a after := by
  unfold Ends at ends
  rw [ended] at ends
  exact ends

theorem error_of (ends : Ends part s ok failed) {e : ε} {after : σ}
    (ended : part s = .error e after) : failed e after := by
  unfold Ends at ends
  rw [ended] at ends
  exact ends

theorem of_eq {part' : EStateM ε σ α} {s' : σ} (ends : Ends part' s' ok failed)
    (same : part s = part' s') : Ends part s ok failed := by
  unfold Ends
  rw [same]
  exact ends

theorem mono (ends : Ends part s ok failed) (onOk : ∀ a after, ok a after → ok' a after)
    (onError : ∀ e after, failed e after → failed' e after) : Ends part s ok' failed' :=
  of_forall (fun _ _ ended => onOk _ _ (ends.ok_of ended))
    (fun _ _ ended => onError _ _ (ends.error_of ended))

theorem pure {a : α} (holds : ok a s) : Ends (Pure.pure a : EStateM ε σ α) s ok failed := holds

theorem throw {e : ε} (holds : failed e s) : Ends (MonadExcept.throw e : EStateM ε σ α) s ok failed :=
  holds

theorem modify {change : σ → σ} {ok : PUnit → σ → Prop} (holds : ok ⟨⟩ (change s)) :
    Ends (modify change : EStateM ε σ PUnit) s ok failed := holds

/-- A sequence ends as its second part does from where the first one ended. -/
theorem bind (first : Ends part s ok failed)
    (rest : ∀ a after, part s = .ok a after → ok a after → Ends (next a) after done failed) :
    Ends (part >>= next) s done failed := by
  change Ends (EStateM.bind part next) s done failed
  unfold Ends EStateM.bind
  cases ended : part s with
  | ok a after => exact rest a after ended (first.ok_of ended)
  | error e after => exact first.error_of ended

end Ends

/-- A sequence that gives a result does so through a result of its first part. -/
theorem bind_eq_ok {part : EStateM ε σ α} {next : α → EStateM ε σ β} {s last : σ} {b : β}
    (ended : (part >>= next) s = .ok b last) :
    ∃ a after, part s = .ok a after ∧ next a after = .ok b last := by
  change EStateM.bind part next s = .ok b last at ended
  unfold EStateM.bind at ended
  cases first : part s with
  | ok a after =>
    rw [first] at ended
    exact ⟨a, after, rfl, ended⟩
  | error e after =>
    rw [first] at ended
    cases ended

theorem bind_of_ok {part : EStateM ε σ α} {next : α → EStateM ε σ β} {s after : σ} {a : α}
    (first : part s = .ok a after) : (part >>= next) s = next a after := by
  change EStateM.bind part next s = next a after
  unfold EStateM.bind
  rw [first]

theorem bind_of_error {part : EStateM ε σ α} {next : α → EStateM ε σ β} {s after : σ} {e : ε}
    (first : part s = .error e after) : (part >>= next) s = .error e after := by
  change EStateM.bind part next s = .error e after
  unfold EStateM.bind
  rw [first]

end LoxLang
