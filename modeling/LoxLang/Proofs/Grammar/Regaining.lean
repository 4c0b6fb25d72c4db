import LoxLang.Proofs.Grammar.Completeness.Expression
import LoxLang.Proofs.Grammar.Rendering

/-! Reading an expression back from known tokens. The rule of a rung does so if it ends with the expression,
but for the identities of its references, and before what follows. Where the rule has a loop, it is enough
that the loop is led to with the expression on its left: what follows may then go on with it. What is read
back on one rung is read back on every looser one, as long as what follows does not continue the phrase. -/
namespace LoxLang.Grammar
open Cursor

/-- The cursor is before these tokens. -/
structure Here (start : List Token) (c : Cursor) : Prop where
  ahead : c.ahead = start
  closed : Closed c

/-- What follows does not continue a phrase of this tightness. -/
def Free (bound : Nat) (rest : List Token) : Prop := Loose bound (rest.map (·.kind) ++ [.endOfFile])

section Steps

variable {t : Token} {start rest : List Token} {kind : Token.Kind} {bound : Nat} {c : Cursor}

theorem Free.mono {higher : Nat} (free : Free bound rest) (le : bound ≤ higher) : Free higher rest :=
  Loose.mono free le

theorem Free.cons (less : grip t.kind < bound) : Free bound (t :: rest) := Loose.cons less

theorem Here.at (here : Here start c) : At (start.map (·.kind) ++ [.endOfFile]) c.reported c :=
  ⟨by rw [Cursor.kinds, here.ahead], rfl, here.closed⟩

theorem Here.next (here : Here (t :: start) c) : c.next = t := by simp [Cursor.next, here.ahead]

theorem Here.stepped (here : Here (t :: start) c) : Here start c.stepped :=
  ⟨by simp [Cursor.stepped, here.ahead], here.closed⟩

theorem Here.loose (here : Here rest c) (free : Free bound rest) : grip c.next.kind < bound :=
  free _ here.at.head

theorem Here.begins {opens : Token.Kind → Bool} (here : Here start c)
    (begins : Begins opens (start.map (·.kind))) : opens c.next.kind = true := by
  cases start with
  | nil => cases begins
  | cons t start =>
    rw [here.next]
    exact begins

theorem advance_here (here : Here (t :: start) c) : Reaches advance c fun _ after => Here start after :=
  here.stepped

theorem accept_here (here : Here (t :: start) c) (matched : t.kind = kind) :
    Reaches (accept kind) c fun taken after => taken = some t ∧ Here start after := by
  have ended : accept kind c = .ok (some t) c.stepped := by
    simp only [accept, here.ahead, matched, ↓reduceIte]
    rw [Cursor.stepped, here.ahead]
    rfl
  exact .of_ok ended ⟨rfl, here.stepped⟩

/-- A token that would continue the phrase is not there to accept. -/
theorem accept_free (here : Here rest c) (free : Free bound rest) (tight : bound ≤ grip kind) :
    Reaches (accept kind) c fun taken after => taken = none ∧ after = c :=
  accept_other_reaches here.at (Loose.head_ne free tight)

theorem expect_here (cause : SyntaxError.Cause) (here : Here (t :: start) c) (matched : t.kind = kind) :
    Reaches (expect kind cause) c fun found after => found = t ∧ Here start after := by
  apply Reaches.bind (accept_here here matched)
  rintro _ after ⟨rfl, there⟩
  exact .pure ⟨rfl, there⟩

theorem expectSymbol_here {s : Symbol} (place : SyntaxError.Place) (here : Here (t :: start) c)
    (matched : t.kind = .symbol s) : Reaches (expectSymbol s place) c fun _ after => Here start after := by
  apply Reaches.bind (expect_here _ here matched)
  rintro _ after ⟨_, there⟩
  exact .pure there

theorem reference_here (name : Token) (here : Here start c) :
    Reaches (reference name) c fun r after => r.name = name ∧ Here start after :=
  ⟨rfl, here.ahead, here.closed⟩

theorem boundArity_here (before : Nat) (cause : SyntaxError.Cause) (here : Here start c) :
    Reaches (boundArity before cause) c fun _ after => Here start after := by
  unfold boundArity
  split
  · apply Reaches.of_next
    exact ⟨here.ahead, here.closed⟩
  · exact .pure here

end Steps

/-- From these tokens the rule reads the expression back and stops before the others. -/
def Regains (rule : Nat → Rule Expr) (e : Expr) (start rest : List Token) : Prop :=
  ∀ ⦃n c⦄, Here start c → Reaches (rule n) c fun e' after => e'.bare = e.bare ∧ Here rest after

/-- From these tokens the rule comes to a round of its loop, with the expression read back as what stands on
the left. -/
def Leads (rule : Nat → Rule Expr) (loop : Nat → Expr → Rule Expr) (e : Expr) (start rest : List Token) :
    Prop :=
  ∀ ⦃n c⦄ ⦃ok : Expr → Cursor → Prop⦄, Here start c →
    (∀ n e' c, e'.bare = e.bare → Here rest c → Reaches (loop n e') c ok) → Reaches (rule n) c ok

/-- The rule of the rung reads the expression back from these tokens. What a loop may go on with is no
hindrance: it is left to the loop. -/
def Rereads (e : Expr) (start rest : List Token) : Rung → Prop
  | .assignment => Free 1 rest → Regains assignment e start rest
  | .conditional => Free 2 rest → Regains conditional e start rest
  | .tier t => Free (t.rank + 1) rest → Leads (binary · t) (binaryRest · t) e start rest
  | .power => Free 9 rest → Regains power e start rest
  | .unary => Free 10 rest → Regains unary e start rest
  | .call => Leads call callRest e start rest
  | .primary => Regains primary e start rest

section Descent

variable {e : Expr} {start rest : List Token}

/-- A rule without budget is exhausted, so only the others matter. -/
theorem Regains.of_succ {rule : Nat → Rule Expr} (zero : rule 0 = exhausted)
    (succ : ∀ {n c}, Here start c →
      Reaches (rule (n + 1)) c fun e' after => e'.bare = e.bare ∧ Here rest after) :
    Regains rule e start rest := by
  intro n c here
  cases n with
  | zero =>
    rw [zero]
    exact .exhausted
  | succ n => exact succ here

/-- A rule that goes on from a tighter one only at a token of some kind ends with what the tighter one read,
where what follows does not continue its phrase. -/
theorem Regains.ends {rule tighter : Nat → Rule Expr} {onward : Nat → Expr → Option Token → Rule Expr}
    {kind : Token.Kind} {bound : Nat} (inner : Regains tighter e start rest) (zero : rule 0 = exhausted)
    (succ : ∀ n, rule (n + 1) = do let e' ← tighter n; onward n e' (← accept kind))
    (stays : ∀ n e', onward n e' none = return e') (free : Free bound rest) (tight : bound ≤ grip kind) :
    Regains rule e start rest := by
  apply Regains.of_succ zero
  intro n c here
  rw [succ]
  apply Reaches.bind (inner here)
  rintro e' after ⟨same, there⟩
  apply Reaches.bind (accept_free there free tight)
  rintro _ _ ⟨rfl, rfl⟩
  rw [stays]
  exact .pure ⟨same, there⟩

theorem Leads.of_succ {rule : Nat → Rule Expr} {loop : Nat → Expr → Rule Expr} (zero : rule 0 = exhausted)
    (succ : ∀ {n c} {ok : Expr → Cursor → Prop}, Here start c →
      (∀ n e' c, e'.bare = e.bare → Here rest c → Reaches (loop n e') c ok) → Reaches (rule (n + 1)) c ok) :
    Leads rule loop e start rest := by
  intro n c ok here goes_on
  cases n with
  | zero =>
    rw [zero]
    exact .exhausted
  | succ n => exact succ here goes_on

/-- The loop of a tier ends where no operator of it follows. -/
theorem binary_regains {t : Tier} (leads : Leads (binary · t) (binaryRest · t) e start rest)
    (free : Free t.rank rest) : Regains (binary · t) e start rest := by
  intro n c here
  apply leads here
  intro n e' c same there
  cases n with
  | zero => exact .exhausted
  | succ n =>
    apply Reaches.bind (no_operation_reaches free there.at)
    rintro _ _ ⟨rfl, rfl⟩
    exact .pure ⟨same, there⟩

/-- The suffixes of a call end where no argument list and no property follows. -/
theorem call_regains (leads : Leads call callRest e start rest) (free : Free 10 rest) :
    Regains call e start rest := by
  intro n c here
  apply leads here
  intro n e' c same there
  cases n with
  | zero => exact .exhausted
  | succ n =>
    have low := there.loose free
    apply Reaches.of_next
    split
    · next opening => simp [opening, grip] at low
    · next dot => simp [dot, grip] at low
    · exact .pure ⟨same, there⟩

/-- What is read back on the next tighter rung is read back as an operand of a tier. -/
theorem operand_regains {t : Tier} (tighter : Rereads e start rest (Rung.tier t).tighter)
    (free : Free (t.rank + 1) rest) : Regains (operand · t) e start rest := by
  apply Regains.of_succ rfl
  intro n c here
  cases t with
  | factor => exact tighter free here
  | _ => exact binary_regains (tighter (free.mono (by decide))) free here

/-- What is read back on the next tighter rung is read back on this one. A call must begin as one. -/
theorem Rereads.step {k : Rung} (tighter : Rereads e start rest k.tighter)
    (begins : k = .unary → Begins opensPrimary (start.map (·.kind))) :
    Rereads e start rest k := by
  cases k with
  | assignment =>
    intro free
    exact (tighter (free.mono (by decide))).ends rfl (fun _ => rfl) (fun _ _ => rfl) free (by decide)
  | conditional =>
    intro free
    have tested := binary_regains (tighter (free.mono (by decide))) (free.mono (by decide))
    exact tested.ends rfl (fun _ => rfl) (fun _ _ => rfl) free (by decide)
  | tier t =>
    intro free
    apply Leads.of_succ rfl
    intro n c ok here goes_on
    apply Reaches.bind (operand_regains tighter free here)
    rintro e' after ⟨same, there⟩
    exact goes_on n e' after same there
  | power =>
    intro free
    exact (tighter (free.mono (by decide))).ends rfl (fun _ => rfl) (fun _ _ => rfl) free (by decide)
  | unary =>
    intro free
    apply Regains.of_succ rfl
    intro n c here
    have opens := here.begins (begins rfl)
    apply Reaches.of_next
    split
    · next sign => simp [sign, opensPrimary] at opens
    · next sign => simp [sign, opensPrimary] at opens
    · exact call_regains tighter free here
  | call =>
    apply Leads.of_succ rfl
    intro n c ok here goes_on
    apply Reaches.bind (tighter here)
    rintro e' after ⟨same, there⟩
    exact goes_on n e' after same there
  | primary => exact tighter

/-- What is read back on its own rung is read back on every looser one. -/
theorem Rereads.descend (own : Rereads e start rest e.rung)
    (begins : Rung.call.rank ≤ e.rank → Begins opensPrimary (start.map (·.kind))) {k : Rung}
    (le : k.rank ≤ e.rank) : Rereads e start rest k := by
  generalize gap : e.rank - k.rank = distance
  induction distance generalizing k with
  | zero =>
    have same : k = e.rung := Rung.rank_injective (Nat.le_antisymm le (Nat.le_of_sub_eq_zero gap))
    rw [same]
    exact own
  | succ distance ih =>
    have next : k.tighter.rank = k.rank + 1 := Rung.rank_tighter (by
      have top := Rung.rank_le e.rung
      unfold Expr.rank at gap
      omega)
    apply Rereads.step (ih (by omega) (by omega))
    rintro rfl
    apply begins
    simp only [Rung.rank] at gap ⊢
    omega

end Descent

end LoxLang.Grammar
