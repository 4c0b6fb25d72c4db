import LoxLang.Proofs.Grammar.Opening
import LoxLang.Proofs.Grammar.Reading

/-! What a rule reaches where the kinds of the tokens ahead are known. `Yields rule ts rest shape`
says that from any cursor at `ts` the rule goes on to `rest`, reports nothing and gives a result of
that shape. Too small a budget is left out here; `Reads` shows which budgets are enough. -/
namespace LoxLang.Grammar
open Cursor

variable {α β : Type}

/-- The cursor is before tokens of these kinds, with these faults reported. -/
structure At (ts : List Token.Kind) (reported : List SyntaxError) (c : Cursor) : Prop where
  kinds : c.kinds = ts
  reported : c.reported = reported
  closed : Closed c

namespace At

variable {ts : List Token.Kind} {kind : Token.Kind} {reported : List SyntaxError} {c : Cursor}

theorem head (here : At ts reported c) : ts.head? = some c.next.kind := by
  rw [← here.kinds]
  cases ahead : c.ahead with
  | nil => simpa [Cursor.kinds, Cursor.next, ahead] using here.closed.symm
  | cons t rest => simp [Cursor.kinds, Cursor.next, ahead]

theorem next (here : At (kind :: ts) reported c) : c.next.kind = kind := by
  simpa using here.head.symm

/-- The first token can be stepped over. -/
theorem step (here : At (kind :: ts) reported c) (open_ : kind ≠ .endOfFile) :
    Stepped c c.next c.stepped ∧
      At ts reported c.stepped := by
  have stepped := stepped_of_kind here.closed (here.next ▸ open_)
  refine ⟨stepped, ?_, here.reported, here.closed⟩
  have kinds := stepped.kinds
  rw [here.kinds] at kinds
  exact (List.cons.inj kinds).2.symm

theorem renumber (here : At ts reported c) (id : NodeId) :
    At ts reported { c with nextId := id } := ⟨here.kinds, here.reported, here.closed⟩

/-- The tokens are all read exactly where the next one is the end marker. -/
theorem isEmpty_eq_false (here : At ts reported c) (open_ : ts.head? ≠ some .endOfFile) :
    c.ahead.isEmpty = false := by
  rw [Bool.eq_false_iff]
  intro empty
  rw [← here.kinds, kinds_of_empty (List.isEmpty_iff.mp empty)] at open_
  exact open_ rfl

theorem isEmpty (here : At [.endOfFile] reported c) : c.ahead.isEmpty = true := by
  have length := congrArg List.length here.kinds
  rw [kinds_length] at length
  exact List.isEmpty_iff.mpr (List.eq_nil_of_length_eq_zero (by simpa [Cursor.size] using length))

theorem sees (here : At ts reported c) (s : Symbol) :
    c.ahead.head?.any (·.kind = .symbol s) = true ↔ ts.head? = some (.symbol s) := by
  rw [← here.kinds]
  cases ahead : c.ahead with
  | nil => simp [Cursor.kinds, ahead]
  | cons t rest => simp [Cursor.kinds, ahead]

/-- What the tokens begin with is next. -/
theorem begins {opens : Token.Kind → Bool} (here : At ts reported c) (begins : Begins opens ts) :
    opens c.next.kind = true := by
  unfold Begins at begins
  rw [here.head] at begins
  exact begins

/-- A cursor that is reached at the kinds of the last tokens is before these tokens. -/
theorem behind {after : Cursor} {own rest : List Token}
    (there : At (ts ++ (rest.map (·.kind) ++ [.endOfFile])) reported after) (onward : Onward c after)
    (ahead : c.ahead = own ++ rest) : ∃ left, after.ahead = left ++ rest ∧ left.map (·.kind) = ts := by
  have kinds : after.ahead.map (·.kind) = ts ++ rest.map (·.kind) :=
    List.append_cancel_right (there.kinds.trans (List.append_assoc ts _ _).symm)
  obtain ⟨left, last, split, same, alike⟩ := List.map_eq_append_iff.mp kinds
  have length : last.length = rest.length := by simpa using congrArg List.length alike
  have inside : last <:+ own ++ rest := by
    rw [← ahead]
    exact (split ▸ List.suffix_append left last).trans onward.ahead
  have suffix := List.suffix_of_suffix_length_le inside (List.suffix_append own rest)
    (Nat.le_of_eq length)
  obtain rfl := suffix.eq_of_length length
  exact ⟨left, split, same⟩

theorem behind_all {after : Cursor} {own rest : List Token}
    (there : At (rest.map (·.kind) ++ [.endOfFile]) reported after) (onward : Onward c after)
    (ahead : c.ahead = own ++ rest) : after.ahead = rest := by
  have found : ∃ left, after.ahead = left ++ rest ∧ left.map (·.kind) = [] := there.behind onward ahead
  obtain ⟨left, split, none⟩ := found
  rw [split, List.map_eq_nil_iff.mp none, List.nil_append]

end At

/-- From this cursor the rule gives a result for which `ok` holds, if its budget is enough. -/
def Reaches (rule : Rule α) (c : Cursor) (ok : α → Cursor → Prop) : Prop :=
  Ends rule c ok fun failure _ => failure = .exhausted

namespace Reaches

variable {rule : Rule α} {next : α → Rule β} {c : Cursor} {ok ok' : α → Cursor → Prop}
  {done : β → Cursor → Prop}

theorem mono (reaches : Reaches rule c ok) (weaken : ∀ a after, ok a after → ok' a after) :
    Reaches rule c ok' := Ends.mono reaches weaken fun _ _ => id

theorem of_eq {rule' : Rule α} {c' : Cursor} (reaches : Reaches rule' c' ok) (same : rule c = rule' c') :
    Reaches rule c ok := Ends.of_eq reaches same

theorem pure {a : α} (holds : ok a c) : Reaches (Pure.pure a : Rule α) c ok := holds

theorem exhausted : Reaches (Grammar.exhausted : Rule α) c ok := rfl

theorem bind (first : Reaches rule c ok)
    (rest : ∀ a after, ok a after → Reaches (next a) after done) :
    Reaches (rule >>= next) c done :=
  Ends.bind first fun a after _ holds => rest a after holds

theorem map {f : α → β} (first : Reaches rule c ok) (mapped : ∀ a after, ok a after → done (f a) after) :
    Reaches (f <$> rule) c done := bind first fun a after holds => pure (mapped a after holds)

end Reaches

section Steps

variable {ts : List Token.Kind} {kind : Token.Kind} {reported : List SyntaxError} {c : Cursor}

theorem next_reaches : Reaches next c fun t after => t = c.next ∧ after = c := ⟨rfl, rfl⟩

theorem Reaches.of_next {α : Type} {rest : Token → Rule α} {ok : α → Cursor → Prop}
    (reaches : Reaches (rest c.next) c ok) : Reaches (next >>= rest) c ok := by
  apply Reaches.bind next_reaches
  rintro _ _ ⟨rfl, rfl⟩
  exact reaches

theorem advance_reaches (here : At (kind :: ts) reported c) (open_ : kind ≠ .endOfFile) :
    Reaches advance c fun _ after => At ts reported after := (here.step open_).2

theorem accept_of_at (here : At (kind :: ts) reported c) (open_ : kind ≠ .endOfFile) :
    accept kind c = .ok (some c.next) c.stepped := by
  obtain ⟨stepped, _⟩ := here.step open_
  unfold accept
  rw [stepped.ahead]
  simp only [here.next, ↓reduceIte]
  rfl

theorem accept_reaches (here : At (kind :: ts) reported c) (open_ : kind ≠ .endOfFile) :
    Reaches (accept kind) c fun taken after =>
      ∃ t, taken = some t ∧ t.kind = kind ∧ At ts reported after := by
  exact .of_ok (accept_of_at here open_) ⟨c.next, rfl, here.next, (here.step open_).2⟩

theorem accept_other_reaches (here : At ts reported c) (other : ts.head? ≠ some kind) :
    Reaches (accept kind) c fun taken after => taken = none ∧ after = c := by
  have ended : accept kind c = .ok none c := by
    unfold accept
    cases ahead : c.ahead with
    | nil => rfl
    | cons t rest =>
      have differs : t.kind ≠ kind := by
        intro same
        apply other
        simp [here.head, Cursor.next, ahead, same]
      simp only [differs, ↓reduceIte]
  exact .of_ok ended ⟨rfl, rfl⟩

theorem expect_reaches (cause : SyntaxError.Cause) (here : At (kind :: ts) reported c)
    (open_ : kind ≠ .endOfFile) :
    Reaches (expect kind cause) c fun _ after => At ts reported after := by
  apply Reaches.bind (accept_reaches here open_)
  rintro _ after ⟨t, rfl, _, there⟩
  exact .pure there

theorem expectSymbol_reaches {s : Symbol} (place : SyntaxError.Place)
    (here : At (.symbol s :: ts) reported c) :
    Reaches (expectSymbol s place) c fun _ after => At ts reported after := by
  apply Reaches.bind (expect_reaches _ here nofun)
  intro _ after there
  exact .pure there

theorem expectName_reaches (role : SyntaxError.NameRole) (here : At (.identifier :: ts) reported c) :
    Reaches (expectName role) c fun _ after => At ts reported after := expect_reaches _ here nofun

theorem reference_reaches (name : Token) (here : At ts reported c) :
    Reaches (reference name) c fun _ after => At ts reported after := here.renumber _

theorem atEnd_reaches : Reaches atEnd c fun ended after => ended = c.ahead.isEmpty ∧ after = c :=
  ⟨rfl, rfl⟩

theorem sees_reaches : Reaches (sees kind) c fun seen after =>
    seen = c.ahead.head?.any (·.kind = kind) ∧ after = c := ⟨rfl, rfl⟩

theorem boundArity_reaches {before : Nat} (cause : SyntaxError.Cause) (few : before < 255) :
    Reaches (boundArity before cause) c fun _ after => after = c := by
  unfold boundArity
  rw [if_neg (show ¬ maxArity ≤ before from Nat.not_le_of_lt few)]
  exact .pure rfl

end Steps

/-- The rule goes from these tokens to the others without a report and gives such a result. -/
def Yields (rule : Nat → Rule α) (ts rest : List Token.Kind) (shape : α → Prop) : Prop :=
  ∀ ⦃n reported c⦄, At ts reported c →
    Reaches (rule n) c fun a after => At rest reported after ∧ shape a

/-- The rule goes from these tokens to the others without a report. -/
def Accepts (rule : Nat → Rule α) (ts rest : List Token.Kind) : Prop :=
  Yields rule ts rest fun _ => True

section Combined

variable {rule : Nat → Rule α} {ts other rest : List Token.Kind} {kind : Token.Kind}

/-- An optional part that is there. -/
theorem optionalAfter_accepts (open_ : kind ≠ .endOfFile) (accepts : Accepts rule ts rest) :
    Accepts (fun n => optionalAfter kind (rule n)) (kind :: ts) rest := by
  intro n reported c here
  apply Reaches.bind (accept_reaches here open_)
  rintro _ middle ⟨_, rfl, _, there⟩
  exact (accepts there).map fun _ _ => id

/-- An optional part that is not. -/
theorem optionalAfter_skips (absent : ts.head? ≠ some kind) :
    Accepts (fun n => optionalAfter kind (rule n)) ts ts := by
  intro n reported c here
  apply Reaches.bind (accept_other_reaches here absent)
  rintro _ _ ⟨rfl, rfl⟩
  exact .pure ⟨here, trivial⟩

variable {rule : Nat → Rule (List α)} {closing : Symbol}

theorem listUnless_accepts (nonempty : ts.head? ≠ some (.symbol closing))
    (accepts : Accepts rule ts rest) : Accepts (fun n => listUnless closing (rule n)) ts rest := by
  intro n reported c here
  apply Reaches.bind sees_reaches
  rintro _ _ ⟨rfl, rfl⟩
  rw [if_neg fun seen => nonempty ((here.sees closing).mp seen)]
  exact accepts here

theorem listUnless_skips : Accepts (fun n => listUnless closing (rule n))
    (.symbol closing :: rest) (.symbol closing :: rest) := by
  intro n reported c here
  apply Reaches.bind sees_reaches
  rintro _ _ ⟨rfl, rfl⟩
  rw [if_pos ((here.sees closing).mpr rfl)]
  exact .pure ⟨here, trivial⟩

end Combined

end LoxLang.Grammar
