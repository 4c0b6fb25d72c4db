import LoxLang.Grammar.Statement
import LoxLang.Proofs.Ends

/-! What every rule does to the cursor: it goes on through the tokens ahead, adds to the reported
faults and takes identities, whichever way it ends. `Reads` is the form in which facts about rules
are stated and composed; a rule that reads is never exhausted. -/
namespace LoxLang.Grammar

variable {α β : Type}

namespace Cursor

/-- The kinds of the tokens ahead and of the end marker. -/
def kinds (c : Cursor) : List Token.Kind := c.ahead.map (·.kind) ++ [.endOfFile]

/-- How many tokens are ahead. -/
def size (c : Cursor) : Nat := c.ahead.length

/-- How many faults have been reported. -/
def faults (c : Cursor) : Nat := c.reported.length

/-- The end marker is one. -/
def Closed (c : Cursor) : Prop := c.stop.kind = .endOfFile

/-- The second cursor can be reached by reading on from the first. -/
structure Onward (c after : Cursor) : Prop where
  ahead : after.ahead <:+ c.ahead
  stop : after.stop = c.stop
  reported : c.reported <+: after.reported
  nextId : c.nextId ≤ after.nextId

namespace Onward

variable {c after last : Cursor}

theorem refl (c : Cursor) : Onward c c :=
  ⟨List.suffix_refl _, rfl, List.prefix_refl _, Nat.le_refl _⟩

theorem trans (first : Onward c after) (second : Onward after last) : Onward c last :=
  ⟨second.ahead.trans first.ahead, second.stop.trans first.stop,
    first.reported.trans second.reported, Nat.le_trans first.nextId second.nextId⟩

theorem size_le (onward : Onward c after) : after.size ≤ c.size := onward.ahead.length_le

theorem faults_le (onward : Onward c after) : c.faults ≤ after.faults := onward.reported.length_le

theorem closed (onward : Onward c after) (closed : Closed c) : Closed after :=
  (congrArg Token.kind onward.stop).trans closed

end Onward

theorem kinds_length (c : Cursor) : c.kinds.length = c.size + 1 := by simp [kinds, size]

theorem kinds_of_empty {c : Cursor} (empty : c.ahead = []) : c.kinds = [.endOfFile] := by
  simp [kinds, empty]

end Cursor

open Cursor

/-- From this cursor the rule reads on and gives a result for which `ok` holds, or is rejected. -/
def Reads (rule : Rule α) (c : Cursor) (ok : α → Cursor → Prop) : Prop :=
  Ends rule c (fun a after => Onward c after ∧ ok a after)
    fun failure after => Onward c after ∧ failure ≠ .exhausted

namespace Reads

variable {rule : Rule α} {next : α → Rule β} {c : Cursor} {ok ok' : α → Cursor → Prop}
  {done : β → Cursor → Prop}

theorem mono (reads : Reads rule c ok) (weaken : ∀ a after, Onward c after → ok a after → ok' a after) :
    Reads rule c ok' :=
  Ends.mono reads (fun _ _ ⟨onward, holds⟩ => ⟨onward, weaken _ _ onward holds⟩) (fun _ _ => id)

theorem pure {a : α} (holds : ok a c) : Reads (Pure.pure a : Rule α) c ok := ⟨.refl c, holds⟩

theorem reject {cause : SyntaxError.Cause} {found : Token} :
    Reads (Grammar.reject cause found : Rule α) c ok := ⟨.refl c, nofun⟩

theorem bind (first : Reads rule c ok)
    (rest : ∀ a after, Onward c after → ok a after → Reads (next a) after done) :
    Reads (rule >>= next) c done := by
  apply Ends.bind first
  intro a after _ ⟨onward, holds⟩
  exact Ends.mono (rest a after onward holds)
    (fun _ _ ⟨further, holds⟩ => ⟨onward.trans further, holds⟩)
    (fun _ _ ⟨further, rejected⟩ => ⟨onward.trans further, rejected⟩)

theorem map {f : α → β} (first : Reads rule c ok)
    (mapped : ∀ a after, Onward c after → ok a after → done (f a) after) :
    Reads (f <$> rule) c done :=
  bind first fun a after onward holds => pure (mapped a after onward holds)

end Reads

theorem next_reads (c : Cursor) : Reads next c fun t after => t = c.next ∧ after = c :=
  ⟨.refl c, rfl, rfl⟩

/-- Looking at the next token leaves the cursor where it is. -/
theorem Reads.of_next {rest : Token → Rule α} {c : Cursor} {ok : α → Cursor → Prop}
    (reads : Reads (rest c.next) c ok) : Reads (next >>= rest) c ok := by
  apply Reads.bind (next_reads c)
  rintro _ _ _ ⟨rfl, rfl⟩
  exact reads

theorem atEnd_reads (c : Cursor) :
    Reads atEnd c fun ended after => ended = c.ahead.isEmpty ∧ after = c :=
  ⟨.refl c, rfl, rfl⟩

theorem sees_reads (kind : Token.Kind) (c : Cursor) :
    Reads (sees kind) c fun seen after =>
      seen = c.ahead.head?.any (·.kind = kind) ∧ after = c :=
  ⟨.refl c, rfl, rfl⟩

/-- The cursor behind the next token, if there is one. -/
def Cursor.stepped (c : Cursor) : Cursor := { c with ahead := c.ahead.tail }

/-- The cursor after the next token. -/
structure Stepped (c : Cursor) (t : Token) (after : Cursor) : Prop where
  ahead : c.ahead = t :: after.ahead
  stop : after.stop = c.stop
  reported : after.reported = c.reported
  nextId : after.nextId = c.nextId

namespace Stepped

variable {c after : Cursor} {t : Token}

theorem onward (stepped : Stepped c t after) : Onward c after where
  ahead := stepped.ahead ▸ List.suffix_cons t after.ahead
  stop := stepped.stop
  reported := stepped.reported ▸ List.prefix_refl _
  nextId := Nat.le_of_eq stepped.nextId.symm

theorem size (stepped : Stepped c t after) : c.size = after.size + 1 := by
  simp [Cursor.size, stepped.ahead]

theorem faults (stepped : Stepped c t after) : after.faults = c.faults := by
  simp [Cursor.faults, stepped.reported]

theorem kinds (stepped : Stepped c t after) : c.kinds = t.kind :: after.kinds := by
  simp [Cursor.kinds, stepped.ahead]

end Stepped

/-- What counts when a token of this kind is stepped over. -/
structure Took (kind : Token.Kind) (c after : Cursor) : Prop where
  size : c.size = after.size + 1
  faults : after.faults = c.faults
  kinds : c.kinds = kind :: after.kinds

theorem Stepped.took {kind : Token.Kind} {c after : Cursor} {t : Token} (stepped : Stepped c t after)
    (matched : t.kind = kind) : Took kind c after :=
  ⟨stepped.size, stepped.faults, matched ▸ stepped.kinds⟩

/-- A cursor is at the end, or can step over the next token. -/
theorem stepped_or_ended (c : Cursor) :
    (c.ahead = [] ∧ c.next = c.stop) ∨ Stepped c c.next c.stepped := by
  cases ahead : c.ahead with
  | nil => exact .inl ⟨rfl, by simp [Cursor.next, ahead]⟩
  | cons t rest => exact .inr ⟨by simp [Cursor.next, Cursor.stepped, ahead], rfl, rfl, rfl⟩

/-- Where the end marker is one, a next token that is none can be stepped over. -/
theorem stepped_of_kind {c : Cursor} (closed : Closed c)
    (open_ : c.next.kind ≠ .endOfFile) : Stepped c c.next c.stepped := by
  obtain ⟨_, next⟩ | stepped := stepped_or_ended c
  · rw [next] at open_
    exact absurd closed open_
  · exact stepped

theorem advance_reads {c : Cursor} (closed : Closed c) (open_ : c.next.kind ≠ .endOfFile) :
    Reads advance c fun _ after => Stepped c c.next after := by
  have stepped := stepped_of_kind closed open_
  exact ⟨stepped.onward, stepped⟩

/-- What accepting a kind of token comes to. -/
inductive Accepted (kind : Token.Kind) (c : Cursor) : Option Token → Cursor → Prop
  | taken {t after} (matched : t.kind = kind) (stepped : Stepped c t after) :
    Accepted kind c (some t) after
  | left : Accepted kind c none c

theorem accept_reads (kind : Token.Kind) (c : Cursor) : Reads (accept kind) c (Accepted kind c) := by
  cases ahead : c.ahead with
  | nil => exact .of_ok (by simp only [accept, ahead]) ⟨.refl c, .left⟩
  | cons t rest =>
    by_cases matched : t.kind = kind
    · have stepped : Stepped c t { c with ahead := rest } := ⟨ahead, rfl, rfl, rfl⟩
      exact .of_ok (by simp only [accept, ahead, matched]; rfl)
        ⟨stepped.onward, .taken matched stepped⟩
    · exact .of_ok (by simp only [accept, ahead, matched]; rfl) ⟨.refl c, .left⟩

theorem expect_reads (kind : Token.Kind) (cause : SyntaxError.Cause) (c : Cursor) :
    Reads (expect kind cause) c fun t after => t.kind = kind ∧ Stepped c t after := by
  apply Reads.bind (accept_reads kind c)
  intro taken after _ accepted
  cases accepted with
  | taken matched stepped => exact .pure ⟨matched, stepped⟩
  | left => exact (next_reads c).bind fun t _ _ _ => .reject

theorem expectSymbol_steps (s : Symbol) (place : SyntaxError.Place) (c : Cursor) :
    Reads (expectSymbol s place) c fun _ after => ∃ t, t.kind = .symbol s ∧ Stepped c t after := by
  apply Reads.bind (expect_reads _ _ c)
  intro t after _ stepped
  exact .pure ⟨t, stepped⟩

theorem expectSymbol_reads (s : Symbol) (place : SyntaxError.Place) (c : Cursor) :
    Reads (expectSymbol s place) c fun _ after => Took (.symbol s) c after := by
  apply (expectSymbol_steps s place c).mono
  rintro _ after _ ⟨t, matched, stepped⟩
  exact stepped.took matched

theorem expectName_reads (role : SyntaxError.NameRole) (c : Cursor) :
    Reads (expectName role) c fun t after => t.kind = .identifier ∧ Stepped c t after :=
  expect_reads _ _ c

/-- A report adds one fault and leaves the rest of the cursor alone. -/
theorem report_reads (cause : SyntaxError.Cause) (found : Token) (c : Cursor) :
    Reads (report cause found) c fun _ after =>
      after = { c with reported := c.reported ++ [⟨cause, found⟩] } :=
  ⟨⟨List.suffix_refl _, rfl, List.prefix_append _ _, Nat.le_refl _⟩, rfl⟩

theorem reference_reads (name : Token) (c : Cursor) :
    Reads (reference name) c fun r after =>
      r = ⟨c.nextId, name⟩ ∧ after = { c with nextId := c.nextId + 1 } :=
  ⟨⟨List.suffix_refl _, rfl, List.prefix_refl _, Nat.le_succ _⟩, rfl, rfl⟩

/-- What an optional part comes to: nothing, or its opening token and what follows it. -/
inductive Optionally (kind : Token.Kind) (c : Cursor) (ok : Cursor → α → Cursor → Prop) :
    Option α → Cursor → Prop
  | absent : Optionally kind c ok none c
  | present {a middle after} (took : Took kind c middle) (further : Onward middle after)
    (holds : ok middle a after) : Optionally kind c ok (some a) after

theorem optionalAfter_reads {kind : Token.Kind} {rule : Rule α} {c : Cursor}
    {ok : Cursor → α → Cursor → Prop}
    (reads : ∀ middle, Onward c middle → Took kind c middle → Reads rule middle (ok middle)) :
    Reads (optionalAfter kind rule) c (Optionally kind c ok) := by
  apply Reads.bind (accept_reads kind c)
  intro taken middle onward accepted
  cases accepted with
  | left => exact .pure .absent
  | taken matched stepped =>
    have took := stepped.took matched
    exact (reads middle onward took).map fun a after further holds => .present took further holds

theorem listUnless_reads {closing : Symbol} {rule : Rule (List α)} {c : Cursor}
    {ok : List α → Cursor → Prop} (reads : Reads rule c ok) :
    Reads (listUnless closing rule) c fun l after => (l = [] ∧ after = c) ∨ ok l after := by
  apply Reads.bind (sees_reads _ c)
  rintro _ c _ ⟨rfl, rfl⟩
  split
  · exact .pure (.inl ⟨rfl, rfl⟩)
  · exact reads.mono fun _ _ _ holds => .inr holds

/-- Nothing is read, and where nothing is reported there is room for one element more. -/
theorem boundArity_stays (before : Nat) (cause : SyntaxError.Cause) (c : Cursor) :
    Reads (boundArity before cause) c fun _ after => after.ahead = c.ahead ∧
      after.nextId = c.nextId ∧ (after.faults = c.faults → before < 255) := by
  unfold boundArity
  split
  · apply Reads.of_next
    apply (report_reads _ _ c).mono
    rintro _ _ _ rfl
    exact ⟨rfl, rfl, fun same => by simp [Cursor.faults] at same⟩
  · next few => exact .pure ⟨rfl, rfl, fun _ => Nat.lt_of_not_le few⟩

theorem boundArity_reads (before : Nat) (cause : SyntaxError.Cause) (c : Cursor) :
    Reads (boundArity before cause) c fun _ after => after.kinds = c.kinds ∧ after.size = c.size ∧
      after.nextId = c.nextId ∧ (after.faults = c.faults → before < 255) := by
  apply (boundArity_stays before cause c).mono
  intro _ after _ ⟨ahead, nextId, few⟩
  exact ⟨by rw [Cursor.kinds, ahead, Cursor.kinds], congrArg List.length ahead, nextId, few⟩

/-- The cursor with this fault reported. -/
def Cursor.noted (c : Cursor) (e : SyntaxError) : Cursor := { c with reported := c.reported ++ [e] }

section Recovering

variable {rule : Rule Stmt} {c after : Cursor} {e : SyntaxError}

theorem recovering_of_ok {s : Stmt} (ended : rule c = .ok s after) :
    recovering rule c = .ok (some s) after := by simp only [recovering, ended]

theorem recovering_of_rejected (ended : rule c = .error (.rejected e) after) :
    recovering rule c = .ok none (after.noted e).recover := by simp only [recovering, ended, noted]

theorem recovering_of_exhausted (ended : rule c = .error .exhausted after) :
    recovering rule c = .error .exhausted after := by simp only [recovering, ended]

end Recovering

end LoxLang.Grammar
