import LoxLang.Proofs.Grammar.Join
import LoxLang.Proofs.Grammar.Recovery.Breaking
import LoxLang.Proofs.Pairs

/-! Two readings side by side. They go through the same kinds of tokens before they come to different
ones, and where they come to the same tokens again the one has reported some faults more than the other.
From there on both do the same. A budget that is too small for one of them is left out. -/
namespace LoxLang.Grammar
open Cursor

variable {α β α' β' : Type} {c d : Cursor} {extra : Nat}

/-- Both cursors are before the same tokens; so many faults more have been reported at the first. -/
structure Alike (extra : Nat) (c d : Cursor) : Prop where
  ahead : c.ahead = d.ahead
  stop : c.stop = d.stop
  faults : c.faults = d.faults + extra

theorem Alike.recover (alike : Alike extra c d) (e e' : SyntaxError) :
    Alike extra (c.noted e).recover (d.noted e').recover := by
  obtain ⟨ahead, stop, nextId, reported⟩ := c
  obtain ⟨ahead', stop', nextId', reported'⟩ := d
  obtain ⟨rfl, rfl, faults⟩ := alike
  have more : reported.length + 1 = reported'.length + 1 + extra := by
    simp only [Cursor.faults] at faults
    omega
  cases ahead with
  | nil => exact ⟨rfl, rfl, by simpa [noted, Cursor.recover, Cursor.faults] using more⟩
  | cons t rest => exact ⟨rfl, rfl, by simpa [noted, Cursor.recover, Cursor.faults] using more⟩

/-- From these cursors the rules give results at cursors for which `ok` holds, or are both rejected
before the same tokens, or one is exhausted. -/
def Abreast (extra : Nat) (rule : Rule α) (rule' : Rule α') (c d : Cursor)
    (ok : Cursor → Cursor → Prop) : Prop :=
  (∃ last, rule c = .error .exhausted last) ∨ (∃ last, rule' d = .error .exhausted last) ∨
    Pairs rule rule' c d (fun _ after _ after' => ok after after')
      fun _ after _ after' => Alike extra after after'

namespace Abreast

variable {rule rule₁ : Rule α} {rule' rule₁' : Rule α'} {next : α → Rule β} {next' : α' → Rule β'}
  {c₁ d₁ : Cursor} {ok ok' done : Cursor → Cursor → Prop}

theorem exhausted : Abreast extra (Grammar.exhausted : Rule α) rule' c d ok := .inl ⟨c, rfl⟩

theorem pure {a : α} {a' : α'} (holds : ok c d) :
    Abreast extra (Pure.pure a : Rule α) (Pure.pure a' : Rule α') c d ok := .inr (.inr holds)

theorem of_eq (abreast : Abreast extra rule₁ rule₁' c₁ d₁ ok) (same : rule c = rule₁ c₁)
    (same' : rule' d = rule₁' d₁) : Abreast extra rule rule' c d ok := by
  unfold Abreast Pairs
  rw [same, same']
  exact abreast

theorem ok_of {a : α} {a' : α'} {after after' : Cursor} (abreast : Abreast extra rule rule' c d ok)
    (ended : rule c = .ok a after) (ended' : rule' d = .ok a' after') : ok after after' := by
  unfold Abreast Pairs at abreast
  rw [ended, ended'] at abreast
  obtain ⟨_, impossible⟩ | ⟨_, impossible⟩ | holds := abreast
  · cases impossible
  · cases impossible
  · exact holds

theorem bind (first : Abreast extra rule rule' c d ok)
    (rest : ∀ a a' c d, ok c d → Abreast extra (next a) (next' a') c d done) :
    Abreast extra (rule >>= next) (rule' >>= next') c d done := by
  obtain ⟨last, ended⟩ | ⟨last, ended⟩ | pairs := first
  · exact .inl ⟨last, bind_of_error ended⟩
  · exact .inr (.inl ⟨last, bind_of_error ended⟩)
  · rcases pairs.ends with ⟨a, after, a', after', ended, ended', holds⟩ |
      ⟨failure, after, failure', after', ended, ended', alike⟩
    · exact (rest a a' after after' holds).of_eq (bind_of_ok ended) (bind_of_ok ended')
    · exact .inr (.inr (.of_error (bind_of_error ended) (bind_of_error ended') alike))

theorem map {f : α → β} {f' : α' → β'} (first : Abreast extra rule rule' c d ok) :
    Abreast extra (f <$> rule) (f' <$> rule') c d ok := first.bind fun _ _ _ _ => pure

/-- What both reject is skipped alike. -/
theorem recovering {rule rule' : Rule Stmt} (first : Abreast extra rule rule' c d (Alike extra)) :
    Abreast extra (Grammar.recovering rule) (Grammar.recovering rule') c d (Alike extra) := by
  obtain ⟨last, ended⟩ | ⟨last, ended⟩ | pairs := first
  · exact .inl ⟨last, recovering_of_exhausted ended⟩
  · exact .inr (.inl ⟨last, recovering_of_exhausted ended⟩)
  · rcases pairs.ends with ⟨s, after, s', after', ended, ended', alike⟩ |
      ⟨failure, after, failure', after', ended, ended', alike⟩
    · exact .inr (.inr (.of_ok (recovering_of_ok ended) (recovering_of_ok ended') alike))
    · cases failure with
      | exhausted => exact .inl ⟨after, recovering_of_exhausted ended⟩
      | rejected e =>
        cases failure' with
        | exhausted => exact .inr (.inl ⟨after', recovering_of_exhausted ended'⟩)
        | rejected e' =>
          exact .inr (.inr (.of_ok (recovering_of_rejected ended) (recovering_of_rejected ended')
            (alike.recover e e')))

end Abreast

section Alike

/-- The cursor at the front of its tokens, before any faults. -/
def Cursor.bare (c : Cursor) : Cursor := ⟨c.ahead, c.stop, 0, []⟩

theorem Cursor.of_bare (c : Cursor) :
    (Relabeling.cursor ⟨id, c.nextId⟩ c.bare).behind c.reported = c := by
  simp only [Relabeling.cursor, Cursor.behind, bare, Relabeling.tokens_same, Nat.zero_add,
    List.map_nil, List.append_nil]
  rfl

/-- What is read alike ends alike. -/
theorem Alike.of_bare (alike : Alike extra c d) (after : Cursor) :
    Alike extra ((Relabeling.cursor ⟨id, c.nextId⟩ after).behind c.reported)
      ((Relabeling.cursor ⟨id, d.nextId⟩ after).behind d.reported) := by
  have faults := alike.faults
  refine ⟨rfl, rfl, ?_⟩
  simp only [Cursor.faults, Cursor.behind, Relabeling.cursor, List.length_append, List.length_map]
    at faults ⊢
  omega

theorem Alike.abreast {rule : Rule α} {f : NodeId → α → α} (alike : Alike extra c d)
    (relabels : ∀ ids, Relabeling.Relabels ⟨id, ids⟩ True (f ids) rule rule) :
    Abreast extra rule rule c d (Alike extra) := by
  -- both readings are the reading from the bare cursor, with other identities and earlier faults
  have same : d.bare = c.bare := by simp only [bare, alike.ahead, alike.stop]
  have found := relabels c.nextId c.reported c.bare
  have found' := relabels d.nextId d.reported d.bare
  rw [Cursor.of_bare] at found found'
  rw [same] at found'
  cases ended : rule c.bare with
  | ok a after => exact .inr (.inr (.of_ok (found.ok_of ended) (found'.ok_of ended) (alike.of_bare after)))
  | error failure after =>
    have failed := (found.error_of ended).resolve_left fun without => without.2 trivial
    have failed' := (found'.error_of ended).resolve_left fun without => without.2 trivial
    exact .inr (.inr (.of_error failed failed' (alike.of_bare after)))

end Alike

section Crossing

variable (rest rest' : List Token)

/-- Both cursors are before tokens of these kinds; different tokens may follow them. -/
structure Beside (us : List Token.Kind) (c d : Cursor) : Prop where
  left : ∃ own, c.ahead = own ++ rest ∧ own.map (·.kind) = us
  right : ∃ own, d.ahead = own ++ rest' ∧ own.map (·.kind) = us
  stop : c.stop = d.stop
  faults : c.faults = d.faults
  closed : Closed c

/-- The kinds of the tokens that follow in either reading. -/
def Following (tail : List Token.Kind) : Prop :=
  tail = rest.map (·.kind) ++ [.endOfFile] ∨ tail = rest'.map (·.kind) ++ [.endOfFile]

/-- The rule goes through these kinds of tokens and through what follows them, and comes to the same
tokens then. -/
def Crosses (rule : Nat → Rule α) (us : List Token.Kind) : Prop :=
  ∀ ⦃n c d⦄, Beside rest rest' us c d → Abreast 1 (rule n) (rule n) c d (Alike 1)

variable {rest rest'} {us vs : List Token.Kind} {kind : Token.Kind}

namespace Beside

theorem at_left (beside : Beside rest rest' us c d) :
    At (us ++ (rest.map (·.kind) ++ [.endOfFile])) c.reported c := by
  obtain ⟨own, ahead, rfl⟩ := beside.left
  exact ⟨by simp [Cursor.kinds, ahead], rfl, beside.closed⟩

theorem at_right (beside : Beside rest rest' us c d) :
    At (us ++ (rest'.map (·.kind) ++ [.endOfFile])) d.reported d := by
  obtain ⟨own, ahead, rfl⟩ := beside.right
  have closed : d.stop.kind = .endOfFile := beside.stop ▸ beside.closed
  exact ⟨by simp [Cursor.kinds, ahead], rfl, closed⟩

/-- What is accepted whatever follows is read in both alike. -/
theorem abreast {rule : Nat → Rule α} {n : Nat} (beside : Beside rest rest' us c d)
    (accepts : AcceptsIn (Following rest rest') rule us vs)
    (rules : ∀ stop, Extends [] stop False (rule n) (rule n)) :
    Abreast 1 (rule n) (rule n) c d (Beside rest rest' vs) := by
  have reaches := @accepts _ (.inl rfl) n _ _ beside.at_left
  have reaches' := @accepts _ (.inr rfl) n _ _ beside.at_right
  cases ended : rule n c with
  | error failure after =>
    obtain rfl := reaches.error_of ended
    exact .inl ⟨after, ended⟩
  | ok a after =>
  cases ended' : rule n d with
  | error failure after' =>
    obtain rfl := reaches'.error_of ended'
    exact .inr (.inl ⟨after', ended'⟩)
  | ok a' after' =>
    obtain ⟨there, _⟩ := reaches.ok_of ended
    obtain ⟨there', _⟩ := reaches'.ok_of ended'
    have onward := ((rules c.stop c).ok_of ended).1
    have onward' := ((rules d.stop d).ok_of ended').1
    obtain ⟨own, ahead, _⟩ := beside.left
    obtain ⟨own', ahead', _⟩ := beside.right
    have faults : after.faults = after'.faults := by
      rw [Cursor.faults, Cursor.faults, there.reported, there'.reported]
      exact beside.faults
    exact .inr (.inr (.of_ok ended ended' ⟨there.behind onward ahead, there'.behind onward' ahead',
      onward.stop.trans (beside.stop.trans onward'.stop.symm), faults, there.closed⟩))

theorem step (beside : Beside rest rest' (kind :: us) c d) (open_ : kind ≠ .endOfFile) :
    Beside rest rest' us c.stepped d.stepped := by
  obtain ⟨own, ahead, kinds⟩ := beside.left
  obtain ⟨own', ahead', kinds'⟩ := beside.right
  obtain ⟨t, own, rfl, rfl, rfl⟩ := List.map_eq_cons_iff.mp kinds
  obtain ⟨t', own', rfl, _, kinds'⟩ := List.map_eq_cons_iff.mp kinds'
  exact ⟨⟨own, by simp [stepped, ahead], rfl⟩, ⟨own', by simp [stepped, ahead'], kinds'⟩,
    beside.stop, beside.faults, beside.closed⟩

end Beside

namespace Crosses

theorem of_succ {rule : Nat → Rule α} (zero : rule 0 = exhausted)
    (succ : ∀ {n c d}, Beside rest rest' us c d →
      Abreast 1 (rule (n + 1)) (rule (n + 1)) c d (Alike 1)) : Crosses rest rest' rule us := by
  intro n c d beside
  cases n with
  | zero =>
    rw [zero]
    exact .exhausted
  | succ n => exact succ beside

theorem map {rule : Nat → Rule α} {f : α → β} (crosses : Crosses rest rest' rule us) :
    Crosses rest rest' (fun n => f <$> rule n) us := fun _ _ _ beside => (crosses beside).map

end Crosses

end Crossing

end LoxLang.Grammar
