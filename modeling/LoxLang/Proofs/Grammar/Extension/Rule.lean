import LoxLang.Proofs.Grammar.Building.Expression

/-! How far a rule looks. A rule that gives a result without a report has looked at the tokens that it
took and at the one after them, if at any; so it gives the same result where more tokens follow. Where
it took all tokens that there were, it may take some of those that follow, and may not. A larger budget
changes nothing either. -/
namespace LoxLang.Grammar
open Cursor

/-- The cursor with more tokens behind those ahead. -/
def Cursor.extended (c : Cursor) (more : List Token) (stop : Token) : Cursor :=
  { c with ahead := c.ahead ++ more, stop }

variable (more : List Token) (stop : Token) (closed : Prop) {α β : Type}

/-- A result of the first rule, found without a report, is a result of the second one where more tokens
follow, if there are tokens left or the result cannot go on. -/
def Extends (rule rule' : Rule α) : Prop :=
  ∀ c, Advances rule c fun a after => after.reported = c.reported → (after.ahead = [] → closed) →
    rule' (c.extended more stop) = .ok a (after.extended more stop)

/-- What is more, a token is taken. -/
def Takes (rule rule' : Rule α) : Prop :=
  ∀ c, Advances rule c fun a after => after.reported = c.reported → after.size < c.size ∧
    ((after.ahead = [] → closed) →
      rule' (c.extended more stop) = .ok a (after.extended more stop))

variable {more stop closed} {rule rule' : Rule α} {following following' : α → Rule β} {kind : Token.Kind}

/-- Nothing is reported from one cursor to another only if it is so all along. -/
theorem reported_of_onward {c middle after : Cursor} (first : Onward c middle)
    (second : Onward middle after) (clean : after.reported = c.reported) :
    middle.reported = c.reported ∧ after.reported = middle.reported := by
  have within : middle.reported <+: c.reported := clean ▸ second.reported
  have same : middle.reported = c.reported := within.eq_of_length_le first.reported.length_le
  exact ⟨same, clean.trans same.symm⟩

/-- Where no tokens are left, none are left later. -/
theorem empty_of_onward {c after : Cursor} (onward : Onward c after) (empty : c.ahead = []) :
    after.ahead = [] := List.suffix_nil.mp (empty ▸ onward.ahead)

namespace Extends

/-- A result that need not be closed. -/
theorem inside (rules : Extends more stop closed rule rule') : Extends more stop False rule rule' :=
  fun c => (rules c).mono fun _ _ _ same clean left => same clean fun empty => (left empty).elim

theorem pure (a : α) : Extends more stop closed (Pure.pure a) (Pure.pure a) :=
  fun _ => .pure fun _ _ => rfl

theorem exhausted : Extends more stop closed (Grammar.exhausted : Rule α) rule' :=
  fun _ => .exhausted

theorem reject (cause : SyntaxError.Cause) (found : Token) :
    Extends more stop closed (Grammar.reject cause found : Rule α) rule' := fun _ => .reject

theorem bind (first : Extends more stop closed rule rule')
    (rest : ∀ a, Extends more stop closed (following a) (following' a)) :
    Extends more stop closed (rule >>= following) (rule' >>= following') := by
  intro c
  apply (first c).bind
  intro a middle onward found
  apply (rest a middle).mono
  intro b after further found' clean left
  obtain ⟨clean₁, clean₂⟩ := reported_of_onward onward further clean
  have first' := found clean₁ fun empty => left (empty_of_onward further empty)
  rw [bind_of_ok first']
  exact found' clean₂ left

theorem map (f : α → β) (first : Extends more stop closed rule rule') :
    Extends more stop closed (f <$> rule) (f <$> rule') := first.bind fun _ => .pure _

/-- The next token, if there is one. -/
theorem next : Extends more stop False Grammar.next Grammar.next := by
  rintro ⟨ahead, last, nextId, reported⟩
  apply (Advances.of_reads (next_reads _)).mono
  rintro _ _ _ ⟨rfl, rfl⟩ _ left
  cases ahead with
  | nil => exact (left rfl).elim
  | cons => rfl

theorem atEnd : Extends more stop False Grammar.atEnd Grammar.atEnd := by
  rintro ⟨ahead, last, nextId, reported⟩
  apply (Advances.of_reads (atEnd_reads _)).mono
  rintro _ _ _ ⟨rfl, rfl⟩ _ left
  cases ahead with
  | nil => exact (left rfl).elim
  | cons => rfl

theorem sees (kind : Token.Kind) : Extends more stop False (Grammar.sees kind) (Grammar.sees kind) := by
  rintro ⟨ahead, last, nextId, reported⟩
  apply (Advances.of_reads (sees_reads _ _)).mono
  rintro _ _ _ ⟨rfl, rfl⟩ _ left
  cases ahead with
  | nil => exact (left rfl).elim
  | cons => rfl

theorem advance : Extends more stop False Grammar.advance Grammar.advance := by
  rintro ⟨ahead, last, nextId, reported⟩
  refine ⟨⟨List.tail_suffix _, rfl, List.prefix_refl _, Nat.le_refl _⟩, fun _ left => ?_⟩
  cases ahead with
  | nil => exact (left rfl).elim
  | cons => rfl

/-- A token that is accepted is one of those ahead, unless there are none. -/
theorem accept (other : closed → more.head?.map Token.kind ≠ some kind) :
    Extends more stop closed (Grammar.accept kind) (Grammar.accept kind) := by
  rintro ⟨ahead, last, nextId, reported⟩
  cases ahead with
  | nil =>
    refine ⟨.refl _, fun _ left => ?_⟩
    have absent := other (left rfl)
    cases more with
    | nil => rfl
    | cons t rest =>
      have differs : t.kind ≠ kind := fun same => absent (congrArg some same)
      change (if t.kind = kind then _ else _) = _
      rw [if_neg differs]
  | cons t rest =>
    by_cases matched : t.kind = kind
    · have ended : Grammar.accept kind ⟨t :: rest, last, nextId, reported⟩ =
          .ok (some t) ⟨rest, last, nextId, reported⟩ := if_pos matched
      exact .of_ok ended ⟨⟨List.suffix_cons _ _, rfl, List.prefix_refl _, Nat.le_refl _⟩,
        fun _ _ => if_pos matched⟩
    · have ended : Grammar.accept kind ⟨t :: rest, last, nextId, reported⟩ =
          .ok none ⟨t :: rest, last, nextId, reported⟩ := if_neg matched
      exact .of_ok ended ⟨.refl _, fun _ _ => if_neg matched⟩

theorem report (cause : SyntaxError.Cause) (found : Token) :
    Extends more stop closed (Grammar.report cause found) (Grammar.report cause found) := by
  intro c
  apply (Advances.of_reads (report_reads cause found c)).mono
  rintro _ _ _ rfl clean
  have longer := congrArg List.length clean
  simp at longer

theorem reference (name : Token) :
    Extends more stop closed (Grammar.reference name) (Grammar.reference name) := by
  intro c
  apply (Advances.of_reads (reference_reads name c)).mono
  rintro _ _ _ ⟨rfl, rfl⟩ _ _
  rfl

theorem boundArity (before : Nat) (cause : SyntaxError.Cause) :
    Extends more stop False (Grammar.boundArity before cause) (Grammar.boundArity before cause) := by
  unfold Grammar.boundArity
  split
  · exact next.bind fun t => report cause t
  · exact .pure ()

theorem optionalAfter (other : closed → more.head?.map Token.kind ≠ some kind)
    (rules : Extends more stop closed rule rule') :
    Extends more stop closed (Grammar.optionalAfter kind rule) (Grammar.optionalAfter kind rule') := by
  apply (accept other).bind
  intro taken
  cases taken with
  | none => exact .pure none
  | some _ => exact rules.map some

theorem listUnless {rule rule' : Rule (List α)} (closing : Symbol)
    (rules : Extends more stop False rule rule') :
    Extends more stop False (Grammar.listUnless closing rule) (Grammar.listUnless closing rule') := by
  apply (sees _).bind
  intro seen
  cases seen with
  | true => exact .pure []
  | false => exact rules

end Extends

namespace Takes

theorem extends_ (takes : Takes more stop closed rule rule') : Extends more stop closed rule rule' :=
  fun c => (takes c).mono fun _ _ _ found clean => (found clean).2

/-- A result that is closed anyway. -/
theorem weaken (takes : Takes more stop True rule rule') : Takes more stop closed rule rule' :=
  fun c => (takes c).mono fun _ _ _ found clean =>
    ⟨(found clean).1, fun _ => (found clean).2 fun _ => trivial⟩

theorem exhausted : Takes more stop closed (Grammar.exhausted : Rule α) rule' :=
  fun _ => .exhausted

theorem bind (first : Takes more stop closed rule rule')
    (rest : ∀ a, Extends more stop closed (following a) (following' a)) :
    Takes more stop closed (rule >>= following) (rule' >>= following') := by
  intro c
  apply (first c).bind
  intro a middle onward found
  apply (rest a middle).mono
  intro b after further found' clean
  obtain ⟨clean₁, clean₂⟩ := reported_of_onward onward further clean
  obtain ⟨shorter, first'⟩ := found clean₁
  refine ⟨Nat.lt_of_le_of_lt further.size_le shorter, fun left => ?_⟩
  rw [bind_of_ok (first' fun empty => left (empty_of_onward further empty))]
  exact found' clean₂ left

/-- A first part whose result need not be closed, since a token is taken after it. -/
theorem after (first : Extends more stop False rule rule')
    (rest : ∀ a, Takes more stop closed (following a) (following' a)) :
    Takes more stop closed (rule >>= following) (rule' >>= following') := by
  intro c
  apply (first c).bind
  intro a middle onward found
  apply (rest a middle).mono
  intro b after further found' clean
  obtain ⟨clean₁, clean₂⟩ := reported_of_onward onward further clean
  obtain ⟨shorter, second⟩ := found' clean₂
  have tokens : middle.ahead ≠ [] := by
    intro empty
    rw [Cursor.size, Cursor.size, empty] at shorter
    exact Nat.not_lt_zero _ shorter
  refine ⟨Nat.lt_of_lt_of_le shorter onward.size_le, fun left => ?_⟩
  rw [bind_of_ok (found clean₁ fun empty => tokens empty)]
  exact second left

theorem map (f : α → β) (takes : Takes more stop closed rule rule') :
    Takes more stop closed (f <$> rule) (f <$> rule') := takes.bind fun _ => .pure _

theorem expect (kind : Token.Kind) (cause : SyntaxError.Cause) :
    Takes more stop closed (Grammar.expect kind cause) (Grammar.expect kind cause) := by
  intro c
  apply (Advances.of_reads (expect_reads kind cause c)).mono
  rintro t after _ ⟨matched, stepped⟩ _
  refine ⟨by rw [stepped.size]; exact Nat.lt_succ_self _, fun _ => ?_⟩
  have ahead : (c.extended more stop).ahead = t :: (after.ahead ++ more) := by
    rw [Cursor.extended, stepped.ahead, List.cons_append]
  have taken : Grammar.accept kind (c.extended more stop) = .ok (some t) (after.extended more stop) := by
    unfold Grammar.accept
    rw [ahead]
    simp only [matched, if_true, Cursor.extended, stepped.reported, stepped.nextId]
  unfold Grammar.expect
  rw [bind_of_ok taken]
  rfl

theorem expectSymbol (s : Symbol) (place : SyntaxError.Place) :
    Takes more stop closed (Grammar.expectSymbol s place) (Grammar.expectSymbol s place) :=
  (expect _ _).bind fun _ => .pure ()

theorem expectName (role : SyntaxError.NameRole) :
    Takes more stop closed (Grammar.expectName role) (Grammar.expectName role) := expect _ _

end Takes

end LoxLang.Grammar
