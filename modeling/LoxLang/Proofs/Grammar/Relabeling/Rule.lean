import LoxLang.Proofs.Ends
import LoxLang.Proofs.Grammar.Relabeling.Tree

/-! Reading depends on the tokens ahead and on nothing else. A rule that finds the same tokens on other
lines, another next identity and other faults reported before gives the relabeled tree and leaves the
relabeled cursor, or fails in the same way; so it does with a larger budget, unless its own was too
small. -/
namespace LoxLang
open Grammar

/-- The cursor with these faults reported before its own. -/
def Grammar.Cursor.behind (c : Cursor) (before : List SyntaxError) : Cursor :=
  { c with reported := before ++ c.reported }

namespace Relabeling

variable (σ : Relabeling)

def fault (e : SyntaxError) : SyntaxError := ⟨e.cause, σ.token e.found⟩

def failure : Failure → Failure
  | .rejected e => .rejected (σ.fault e)
  | .exhausted => .exhausted

def cursor (c : Cursor) : Cursor where
  ahead := c.ahead.map σ.token
  stop := σ.token c.stop
  nextId := c.nextId + σ.ids
  reported := c.reported.map σ.fault

variable {α β α' β' : Type}

def result (f : α → α') : EStateM.Result Failure Cursor α → EStateM.Result Failure Cursor α'
  | .ok a after => .ok (f a) (σ.cursor after)
  | .error e after => .error (σ.failure e) (σ.cursor after)

/-- On relabeled cursors the second rule does what the first one does, relabeled, whatever has been
reported before. Where the first one is exhausted this is said only if the budgets are the same. -/
def Relabels (equal : Prop) (f : α → α') (rule : Rule α) (rule' : Rule α') : Prop :=
  ∀ before c, Ends rule c
    (fun a after => rule' ((σ.cursor c).behind before) = .ok (f a) ((σ.cursor after).behind before))
    fun e after => (e = .exhausted ∧ ¬ equal) ∨
      rule' ((σ.cursor c).behind before) = .error (σ.failure e) ((σ.cursor after).behind before)

/-- The second budget is no smaller than the first one, and the same one if they are equal. -/
structure Budgets (equal : Prop) (n n' : Nat) : Prop where
  enough : n ≤ n'
  exact : equal → n = n'

theorem Budgets.pred {equal : Prop} {n n' : Nat} (budgets : Budgets equal (n + 1) (n' + 1)) :
    Budgets equal n n' :=
  ⟨Nat.le_of_succ_le_succ budgets.enough, fun given => Nat.succ.inj (budgets.exact given)⟩

variable {σ} {equal : Prop} {f : α → α'} {g : β → β'} {rule : Rule α} {rule' : Rule α'}
  {following : α → Rule β} {following' : α' → Rule β'}

namespace Relabels

theorem pure {a : α} {a' : α'} (given : a' = f a) :
    σ.Relabels equal f (Pure.pure a : Rule α) (Pure.pure a') := by
  intro before c
  rw [given]
  exact .pure rfl

/-- Without a budget a rule is exhausted. -/
theorem exhausted (none : equal → rule' = Grammar.exhausted) :
    σ.Relabels equal f (Grammar.exhausted : Rule α) rule' := by
  intro before c
  by_cases exact : equal
  · rw [none exact]
    exact .throw (.inr rfl)
  · exact .throw (.inl ⟨rfl, exact⟩)

theorem reject (cause : SyntaxError.Cause) (found : Token) :
    σ.Relabels equal f (Grammar.reject cause found : Rule α)
      (Grammar.reject cause (σ.token found) : Rule α') := fun _ _ => .throw (.inr rfl)

theorem bind (first : σ.Relabels equal f rule rule')
    (rest : ∀ a, σ.Relabels equal g (following a) (following' (f a))) :
    σ.Relabels equal g (rule >>= following) (rule' >>= following') := by
  intro before c
  have found := first before c
  cases ended : rule c with
  | ok a after =>
    have goes_on := rest a before after
    unfold Ends at goes_on ⊢
    rw [bind_of_ok ended, bind_of_ok (found.ok_of ended)]
    exact goes_on
  | error e after =>
    exact .of_error (bind_of_error ended) ((found.error_of ended).imp id bind_of_error)

theorem map {h : α → β} {h' : α' → β'} (first : σ.Relabels equal f rule rule')
    (mapped : ∀ a, h' (f a) = g (h a)) : σ.Relabels equal g (h <$> rule) (h' <$> rule') :=
  first.bind fun a => .pure (mapped a)

theorem next : σ.Relabels equal σ.token Grammar.next Grammar.next := by
  rintro before ⟨ahead, stop, nextId, reported⟩
  cases ahead <;> exact .of_ok rfl rfl

theorem atEnd : σ.Relabels equal id Grammar.atEnd Grammar.atEnd := by
  rintro before ⟨ahead, stop, nextId, reported⟩
  cases ahead <;> exact .of_ok rfl rfl

theorem sees (kind : Token.Kind) : σ.Relabels equal id (Grammar.sees kind) (Grammar.sees kind) := by
  rintro before ⟨ahead, stop, nextId, reported⟩
  cases ahead <;> exact .of_ok rfl rfl

theorem advance : σ.Relabels equal id Grammar.advance Grammar.advance := by
  rintro before ⟨ahead, stop, nextId, reported⟩
  cases ahead <;> exact .of_ok rfl rfl

theorem accept (kind : Token.Kind) :
    σ.Relabels equal (Option.map σ.token) (Grammar.accept kind) (Grammar.accept kind) := by
  rintro before ⟨ahead, stop, nextId, reported⟩
  cases ahead with
  | nil => exact .of_ok rfl rfl
  | cons t rest =>
    by_cases matched : t.kind = kind
    · exact .of_ok (if_pos matched) (if_pos matched)
    · exact .of_ok (if_neg matched) (if_neg matched)

theorem expect (kind : Token.Kind) (cause : SyntaxError.Cause) :
    σ.Relabels equal σ.token (Grammar.expect kind cause) (Grammar.expect kind cause) := by
  apply (accept kind).bind
  intro taken
  cases taken with
  | some t => exact .pure rfl
  | none => exact next.bind fun t => reject cause t

theorem expectSymbol (s : Symbol) (place : SyntaxError.Place) :
    σ.Relabels equal id (Grammar.expectSymbol s place) (Grammar.expectSymbol s place) :=
  (expect _ _).bind fun _ => .pure rfl

theorem expectName (role : SyntaxError.NameRole) :
    σ.Relabels equal σ.token (Grammar.expectName role) (Grammar.expectName role) := expect _ _

theorem report (cause : SyntaxError.Cause) (found : Token) :
    σ.Relabels equal id (Grammar.report cause found) (Grammar.report cause (σ.token found)) := by
  intro before c
  have ended : Grammar.report cause found c =
    .ok () { c with reported := c.reported ++ [⟨cause, found⟩] } := rfl
  apply Ends.of_ok ended
  simp only [Grammar.report, cursor, Cursor.behind, List.map_append, List.append_assoc]
  rfl

theorem reference (name : Token) :
    σ.Relabels equal σ.reference (Grammar.reference name) (Grammar.reference (σ.token name)) := by
  intro before c
  have later : c.nextId + σ.ids + 1 = c.nextId + 1 + σ.ids := Nat.add_right_comm _ _ _
  have ended : Grammar.reference name c = .ok ⟨c.nextId, name⟩ { c with nextId := c.nextId + 1 } := rfl
  apply Ends.of_ok ended
  change EStateM.Result.ok _ { (σ.cursor c).behind before with nextId := c.nextId + σ.ids + 1 } = _
  rw [later]
  rfl

theorem optionalAfter (kind : Token.Kind) (rules : σ.Relabels equal f rule rule') :
    σ.Relabels equal (Option.map f) (Grammar.optionalAfter kind rule)
      (Grammar.optionalAfter kind rule') := by
  apply (accept kind).bind
  intro taken
  cases taken with
  | none => exact .pure rfl
  | some _ => exact rules.map fun _ => rfl

theorem listUnless {rule : Rule (List α)} {rule' : Rule (List α')} {f : List α → List α'}
    (closing : Symbol) (empty : f [] = []) (rules : σ.Relabels equal f rule rule') :
    σ.Relabels equal f (Grammar.listUnless closing rule) (Grammar.listUnless closing rule') := by
  apply (sees _).bind
  intro seen
  cases seen with
  | true => exact .pure empty.symm
  | false => exact rules

theorem boundArity (before : Nat) (cause : SyntaxError.Cause) :
    σ.Relabels equal id (Grammar.boundArity before cause) (Grammar.boundArity before cause) := by
  unfold Grammar.boundArity
  split
  · exact next.bind fun t => report cause t
  · exact .pure rfl

end Relabels

theorem tokens_same (ids : NodeId) (ts : List Token) : ts.map (token ⟨id, ids⟩) = ts := List.map_id ts

theorem faults_same (ids : NodeId) (es : List SyntaxError) : es.map (fault ⟨id, ids⟩) = es :=
  List.map_id es

/-- A relabeling to the same lines and the same identities. -/
theorem cursor_same (c : Cursor) : (cursor ⟨id, 0⟩ c).behind [] = c := by
  simp only [cursor, Cursor.behind, tokens_same, faults_same]
  rfl

/-- A rule that is not exhausted does the same with a larger budget. -/
theorem Relabels.again {rule rule' : Rule α} {f : α → α} (relabels : same.Relabels False f rule rule')
    (identity : ∀ a, f a = a) {c : Cursor} (enough : ∀ after, rule c ≠ .error .exhausted after) :
    rule' c = rule c := by
  have found := relabels [] c
  cases ended : rule c with
  | ok a after =>
    have again := found.ok_of ended
    rwa [cursor_same, cursor_same, identity] at again
  | error e after =>
    have again := (found.error_of ended).resolve_left fun ⟨out, _⟩ => enough after (out ▸ ended)
    rw [cursor_same, cursor_same] at again
    cases e with
    | exhausted => exact again
    | rejected e => exact again

end Relabeling
end LoxLang
