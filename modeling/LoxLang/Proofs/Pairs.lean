import LoxLang.Proofs.Ends

/-! Two stateful parts side by side. They are entered in two states, and either both give results or
both fail; `Pairs` says what holds of the two ends, and goes through two sequences step by step. -/
namespace LoxLang

variable {ε σ α α' β β' : Type}

/-- From these states both parts give results for which `ok` holds, or fail so that `failed` holds. -/
def Pairs (part : EStateM ε σ α) (part' : EStateM ε σ α') (s s' : σ) (ok : α → σ → α' → σ → Prop)
    (failed : ε → σ → ε → σ → Prop) : Prop :=
  match part s, part' s' with
  | .ok a after, .ok a' after' => ok a after a' after'
  | .error e after, .error e' after' => failed e after e' after'
  | _, _ => False

namespace Pairs

variable {part : EStateM ε σ α} {part' : EStateM ε σ α'} {next : α → EStateM ε σ β}
  {next' : α' → EStateM ε σ β'} {s s' : σ} {ok ok₁ : α → σ → α' → σ → Prop}
  {failed failed₁ : ε → σ → ε → σ → Prop} {done : β → σ → β' → σ → Prop}

theorem of_ok {a : α} {a' : α'} {after after' : σ} (ended : part s = .ok a after)
    (ended' : part' s' = .ok a' after') (holds : ok a after a' after') :
    Pairs part part' s s' ok failed := by
  unfold Pairs
  rw [ended, ended']
  exact holds

theorem of_error {e e' : ε} {after after' : σ} (ended : part s = .error e after)
    (ended' : part' s' = .error e' after') (holds : failed e after e' after') :
    Pairs part part' s s' ok failed := by
  unfold Pairs
  rw [ended, ended']
  exact holds

/-- Two parts that end alike end in one of two ways. -/
theorem ends (pairs : Pairs part part' s s' ok failed) :
    (∃ a after a' after', part s = .ok a after ∧ part' s' = .ok a' after' ∧ ok a after a' after') ∨
      ∃ e after e' after', part s = .error e after ∧ part' s' = .error e' after' ∧
        failed e after e' after' := by
  unfold Pairs at pairs
  split at pairs
  · next a after a' after' ended ended' => exact .inl ⟨a, after, a', after', ended, ended', pairs⟩
  · next e after e' after' ended ended' => exact .inr ⟨e, after, e', after', ended, ended', pairs⟩
  · exact pairs.elim

theorem mono (pairs : Pairs part part' s s' ok failed)
    (onOk : ∀ a after a' after', ok a after a' after' → ok₁ a after a' after')
    (onError : ∀ e after e' after', failed e after e' after' → failed₁ e after e' after') :
    Pairs part part' s s' ok₁ failed₁ := by
  rcases pairs.ends with ⟨_, _, _, _, ended, ended', holds⟩ | ⟨_, _, _, _, ended, ended', holds⟩
  · exact of_ok ended ended' (onOk _ _ _ _ holds)
  · exact of_error ended ended' (onError _ _ _ _ holds)

theorem throw {e e' : ε} (holds : failed e s e' s') :
    Pairs (MonadExcept.throw e : EStateM ε σ α) (MonadExcept.throw e' : EStateM ε σ α') s s' ok failed :=
  holds

theorem modify {change change' : σ → σ} {ok : PUnit → σ → PUnit → σ → Prop}
    (holds : ok ⟨⟩ (change s) ⟨⟩ (change' s')) :
    Pairs (modify change : EStateM ε σ PUnit) (modify change') s s' ok failed := holds

/-- Two sequences end as their second parts do from where the first ones ended. -/
theorem bind_ended (first : Pairs part part' s s' ok failed)
    (rest : ∀ a after a' after', part s = .ok a after → ok a after a' after' →
      Pairs (next a) (next' a') after after' done failed) :
    Pairs (part >>= next) (part' >>= next') s s' done failed := by
  rcases first.ends with ⟨a, after, a', after', ended, ended', holds⟩ |
    ⟨e, after, e', after', ended, ended', holds⟩
  · have pairs := rest a after a' after' ended holds
    unfold Pairs at pairs ⊢
    rwa [bind_of_ok ended, bind_of_ok ended']
  · exact of_error (bind_of_error ended) (bind_of_error ended') holds

theorem bind (first : Pairs part part' s s' ok failed)
    (rest : ∀ a after a' after', ok a after a' after' →
      Pairs (next a) (next' a') after after' done failed) :
    Pairs (part >>= next) (part' >>= next') s s' done failed :=
  first.bind_ended fun a after a' after' _ => rest a after a' after'

end Pairs

end LoxLang
