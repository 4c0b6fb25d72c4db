import LoxLang.Proofs.Grammar.Reading
import LoxLang.Proofs.Grammar.Soundness.Expression
import LoxLang.Proofs.Grammar.Tree

/-! Every rule builds trees out of the tokens ahead and new identities, also where it reports faults.
These are the rules of expressions. -/
namespace LoxLang.Grammar
open Cursor

variable {α β : Type}

/-- However the rule ends, it has read on from this cursor; `ok` holds for a result. -/
def Advances (rule : Rule α) (c : Cursor) (ok : α → Cursor → Prop) : Prop :=
  Ends rule c (fun a after => Onward c after ∧ ok a after) fun _ after => Onward c after

namespace Advances

variable {rule : Rule α} {next : α → Rule β} {c : Cursor} {ok ok' : α → Cursor → Prop}
  {done : β → Cursor → Prop}

theorem of_reads (reads : Reads rule c ok) : Advances rule c ok :=
  Ends.mono reads (fun _ _ => id) fun _ _ => And.left

theorem mono (advances : Advances rule c ok)
    (weaken : ∀ a after, Onward c after → ok a after → ok' a after) : Advances rule c ok' :=
  Ends.mono advances (fun _ _ ⟨onward, holds⟩ => ⟨onward, weaken _ _ onward holds⟩) fun _ _ => id

theorem pure {a : α} (holds : ok a c) : Advances (Pure.pure a : Rule α) c ok := ⟨.refl c, holds⟩

theorem exhausted : Advances (Grammar.exhausted : Rule α) c ok := Onward.refl c

theorem reject {cause : SyntaxError.Cause} {found : Token} :
    Advances (Grammar.reject cause found : Rule α) c ok := Onward.refl c

theorem bind (first : Advances rule c ok)
    (rest : ∀ a after, Onward c after → ok a after → Advances (next a) after done) :
    Advances (rule >>= next) c done := by
  apply Ends.bind first
  intro a after _ ⟨onward, holds⟩
  exact Ends.mono (rest a after onward holds)
    (fun _ _ ⟨further, holds⟩ => ⟨onward.trans further, holds⟩)
    (fun _ _ further => onward.trans further)

theorem map {f : α → β} (first : Advances rule c ok)
    (mapped : ∀ a after, Onward c after → ok a after → done (f a) after) :
    Advances (f <$> rule) c done :=
  bind first fun a after onward holds => pure (mapped a after onward holds)

theorem of_next {rest : Token → Rule α} (advances : Advances (rest c.next) c ok) :
    Advances (Grammar.next >>= rest) c ok := by
  apply Advances.bind (.of_reads (next_reads c))
  rintro _ _ _ ⟨rfl, rfl⟩
  exact advances

end Advances

/-- The cursor is before some of these tokens. -/
structure Among (tokens : List Token) (c : Cursor) : Prop where
  ahead : c.ahead ⊆ tokens
  closed : Closed c

namespace Among

variable {tokens : List Token} {c after : Cursor} {t : Token}

theorem onward (among : Among tokens c) (onward : Onward c after) : Among tokens after :=
  ⟨List.Subset.trans onward.ahead.subset among.ahead, onward.closed among.closed⟩

theorem member (among : Among tokens c) (stepped : Stepped c t after) : t ∈ tokens := by
  apply among.ahead
  rw [stepped.ahead]
  exact List.mem_cons_self

theorem name (among : Among tokens c) (stepped : Stepped c t after) (kind : t.kind = .identifier) :
    IsName tokens t := ⟨among.member stepped, kind⟩

end Among

section Parts

variable {rule : Rule α} {c : Cursor} {kind : Token.Kind} {ok : α → Cursor → Prop}

theorem optionalAfter_advances {done : Option α → Cursor → Prop}
    (advances : ∀ {t middle}, Onward c middle → Stepped c t middle → Advances rule middle ok)
    (absent : done none c) (present : ∀ a after, ok a after → done (some a) after) :
    Advances (optionalAfter kind rule) c done := by
  apply Advances.bind (.of_reads (accept_reads kind c))
  intro taken middle onward accepted
  cases accepted with
  | left => exact .pure absent
  | taken matched stepped =>
    exact (advances onward stepped).map fun a after _ holds => present a after holds

theorem listUnless_advances {rule : Rule (List α)} {closing : Symbol} {ok : List α → Cursor → Prop}
    (advances : Advances rule c ok) (empty : ok [] c) : Advances (listUnless closing rule) c ok := by
  apply Advances.bind (.of_reads (sees_reads _ c))
  rintro _ c _ ⟨rfl, rfl⟩
  split
  · exact .pure empty
  · exact advances

/-- A token that is stepped over, if it is no end marker. -/
theorem step_advances {next : Unit → Rule α} (closed : Closed c) (open_ : c.next.kind ≠ .endOfFile)
    (rest : ∀ after, Onward c after → Stepped c c.next after → Advances (next ()) after ok) :
    Advances (advance >>= next) c ok :=
  .bind (.of_reads (advance_reads closed open_)) fun _ after onward stepped =>
    rest after onward stepped

end Parts

variable (tokens : List Token)

/-- The rules of expressions build trees with this budget. -/
structure ExpressionsBuild (n : Nat) : Prop where
  assignment : ∀ {c}, Among tokens c →
    Advances (assignment n) c fun e after => Built tokens c.nextId (.expr e) after.nextId
  conditional : ∀ {c}, Among tokens c →
    Advances (conditional n) c fun e after => Built tokens c.nextId (.expr e) after.nextId
  binary : ∀ {c t}, Among tokens c →
    Advances (binary n t) c fun e after => Built tokens c.nextId (.expr e) after.nextId
  binaryRest : ∀ {c t low left}, Among tokens c → Built tokens low (.expr left) c.nextId →
    Advances (binaryRest n t left) c fun e after => Built tokens low (.expr e) after.nextId
  operand : ∀ {c t}, Among tokens c →
    Advances (operand n t) c fun e after => Built tokens c.nextId (.expr e) after.nextId
  power : ∀ {c}, Among tokens c →
    Advances (power n) c fun e after => Built tokens c.nextId (.expr e) after.nextId
  unary : ∀ {c}, Among tokens c →
    Advances (unary n) c fun e after => Built tokens c.nextId (.expr e) after.nextId
  call : ∀ {c}, Among tokens c →
    Advances (call n) c fun e after => Built tokens c.nextId (.expr e) after.nextId
  callRest : ∀ {c low callee}, Among tokens c → Built tokens low (.expr callee) c.nextId →
    Advances (callRest n callee) c fun e after => Built tokens low (.expr e) after.nextId
  arguments : ∀ {c before}, Among tokens c →
    Advances (arguments n before) c fun es after => Built tokens c.nextId (.exprs es) after.nextId
  primary : ∀ {c}, Among tokens c →
    Advances (primary n) c fun e after => Built tokens c.nextId (.expr e) after.nextId

namespace ExpressionsBuild

variable {tokens} {n : Nat} (all : ExpressionsBuild tokens n) {c : Cursor} (among : Among tokens c)
include all among

theorem assignment_succ : Advances (Grammar.assignment (n + 1)) c
    fun e after => Built tokens c.nextId (.expr e) after.nextId := by
  apply Advances.bind (all.conditional among)
  intro target middle onward left
  have there := among.onward onward
  apply Advances.bind (.of_reads (accept_reads _ middle))
  intro taken equals further accepted
  cases accepted with
  | left => exact .pure left
  | @taken sign equals matched stepped =>
    have same := stepped.nextId
    apply Advances.bind (all.assignment (there.onward further))
    intro value last beyond assigned
    rw [same] at assigned
    have lower := left.ordered
    cases target with
    | «variable» r =>
      have named := left.variable_inv
      apply Advances.bind (.of_reads (reference_reads r.name last))
      rintro _ _ _ ⟨rfl, rfl⟩
      exact .pure (.assign named (assigned.lowered lower))
    | get object name =>
      obtain ⟨named, object⟩ := left.get_inv
      exact .pure (.set named object assigned)
    | _ =>
      apply Advances.bind (.of_reads (report_reads _ _ last))
      rintro _ _ _ rfl
      exact .pure (assigned.lowered lower)

theorem conditional_succ : Advances (Grammar.conditional (n + 1)) c
    fun e after => Built tokens c.nextId (.expr e) after.nextId := by
  apply Advances.bind (all.binary among)
  intro condition middle onward tested
  have there := among.onward onward
  apply Advances.bind (.of_reads (accept_reads _ middle))
  intro taken question further accepted
  cases accepted with
  | left => exact .pure tested
  | @taken sign question matched stepped =>
    have same := stepped.nextId
    have within := there.onward further
    apply Advances.bind (all.assignment within)
    intro thenBranch last beyond chosen
    apply Advances.bind (.of_reads (expectSymbol_reads _ _ last))
    intro _ colon stepping _
    apply Advances.bind (all.conditional ((within.onward beyond).onward stepping))
    intro elseBranch after _ otherwise
    rw [same] at chosen
    exact .pure (.conditional tested chosen (otherwise.lowered stepping.nextId))

theorem binary_succ (t : Tier) : Advances (Grammar.binary (n + 1) t) c
    fun e after => Built tokens c.nextId (.expr e) after.nextId := by
  apply Advances.bind (all.operand among)
  intro left middle onward built
  exact all.binaryRest (among.onward onward) built

theorem binaryRest_succ {low : Nat} {t : Tier} {left : Expr}
    (built : Built tokens low (.expr left) c.nextId) :
    Advances (Grammar.binaryRest (n + 1) t left) c
      fun e after => Built tokens low (.expr e) after.nextId := by
  apply Advances.bind (.of_reads (operator_reads t among.closed))
  rintro _ middle onward (⟨rfl, rfl⟩ | ⟨operator, rfl, chosen, stepped⟩)
  · exact .pure built
  · have there := among.onward onward
    have same := stepped.nextId
    apply Advances.bind (all.operand there)
    intro right last further operand
    rw [same] at operand
    exact all.binaryRest (there.onward further)
      (.operation (among.member stepped) chosen built operand)

theorem operand_succ (t : Tier) : Advances (Grammar.operand (n + 1) t) c
    fun e after => Built tokens c.nextId (.expr e) after.nextId := by
  cases t with
  | factor => exact all.power among
  | _ => exact all.binary among

theorem power_succ : Advances (Grammar.power (n + 1)) c
    fun e after => Built tokens c.nextId (.expr e) after.nextId := by
  apply Advances.bind (all.unary among)
  intro base middle onward built
  have there := among.onward onward
  apply Advances.bind (.of_reads (accept_reads _ middle))
  intro taken raised further accepted
  cases accepted with
  | left => exact .pure built
  | @taken operator raised matched stepped =>
    have same := stepped.nextId
    apply Advances.bind (all.power (there.onward further))
    intro exponent last _ power
    rw [same] at power
    exact .pure (.power (there.member stepped) matched built power)

theorem unary_succ : Advances (Grammar.unary (n + 1)) c
    fun e after => Built tokens c.nextId (.expr e) after.nextId := by
  have signed {kind : Token.Kind} (found : c.next.kind = kind)
      (sign : kind ∈ [.symbol .bang, .symbol .minus]) :
      Advances (do advance; return Expr.unary c.next (← Grammar.unary n)) c
        fun e after => Built tokens c.nextId (.expr e) after.nextId := by
    have open_ : c.next.kind ≠ .endOfFile := by
      rintro last
      rw [← found, last] at sign
      simp at sign
    apply step_advances among.closed open_
    intro middle onward stepped
    have same := stepped.nextId
    apply Advances.bind (all.unary (among.onward onward))
    intro right last _ built
    rw [same] at built
    exact .pure (.unary (among.member stepped) (found ▸ sign) built)
  apply Advances.of_next
  split
  · next found => exact signed found (by simp)
  · next found => exact signed found (by simp)
  · exact all.call among

theorem call_succ : Advances (Grammar.call (n + 1)) c
    fun e after => Built tokens c.nextId (.expr e) after.nextId := by
  apply Advances.bind (all.primary among)
  intro callee middle onward built
  exact all.callRest (among.onward onward) built

theorem callRest_succ {low : Nat} {callee : Expr}
    (built : Built tokens low (.expr callee) c.nextId) :
    Advances (Grammar.callRest (n + 1) callee) c
      fun e after => Built tokens low (.expr e) after.nextId := by
  apply Advances.of_next
  split
  · next found =>
    apply step_advances among.closed (found ▸ nofun)
    intro opened onward stepped
    have same := stepped.nextId
    have there := among.onward onward
    apply Advances.bind (listUnless_advances (all.arguments there) .noExprs)
    intro arguments closing further listed
    rw [same] at listed
    have within := there.onward further
    apply Advances.bind (.of_reads (expect_reads _ _ closing))
    intro paren after beyond ⟨closes, last⟩
    have called := Built.call (within.member last) closes built listed
    rw [← last.nextId] at called
    exact all.callRest (within.onward beyond) called
  · next found =>
    apply step_advances among.closed (found ▸ nofun)
    intro dotted onward stepped
    have there := among.onward onward
    apply Advances.bind (.of_reads (expectName_reads _ dotted))
    intro name after further ⟨named, last⟩
    have got := Built.get (there.name last named) built
    rw [← stepped.nextId, ← last.nextId] at got
    exact all.callRest (there.onward further) got
  · exact .pure built

theorem arguments_succ (before : Nat) : Advances (Grammar.arguments (n + 1) before) c
    fun es after => Built tokens c.nextId (.exprs es) after.nextId := by
  apply Advances.bind (.of_reads (boundArity_reads before _ c))
  intro _ start onward ⟨_, _, same, _⟩
  have there := among.onward onward
  rw [← same]
  apply Advances.bind (all.assignment there)
  intro first middle further built
  apply Advances.bind (.of_reads (accept_reads _ middle))
  intro taken comma beyond accepted
  cases accepted with
  | left => exact .pure (.moreExprs built .noExprs)
  | @taken sign comma matched stepped =>
    have same := stepped.nextId
    apply Advances.bind (all.arguments ((there.onward further).onward beyond))
    intro rest last _ others
    rw [same] at others
    exact .pure (.moreExprs built others)

omit all in
/-- A token that is an expression by itself. -/
theorem literal_advances {l : Literal} {kind : Token.Kind} (found : c.next.kind = kind)
    (open_ : kind ≠ .endOfFile) : Advances (do advance; return Expr.literal l) c
      fun e after => Built tokens c.nextId (.expr e) after.nextId := by
  apply step_advances among.closed (found ▸ open_)
  intro after _ stepped
  rw [← stepped.nextId]
  exact .pure .literal

omit all in
theorem leftless_advances {right : Rule Expr} {ok : Expr → Cursor → Prop}
    (open_ : c.next.kind ≠ .endOfFile)
    (operand : ∀ {after}, Among tokens after → Advances right after fun _ _ => True) :
    Advances (leftless c.next right) c ok := by
  apply step_advances among.closed open_
  intro after onward _
  exact (operand (among.onward onward)).bind fun _ _ _ _ => .reject

theorem primary_succ : Advances (Grammar.primary (n + 1)) c
    fun e after => Built tokens c.nextId (.expr e) after.nextId := by
  have tierless {t : Tier} (open_ : c.next.kind ≠ .endOfFile) :
      Advances (leftless c.next (Grammar.binary n t)) c
        fun e after => Built tokens c.nextId (.expr e) after.nextId :=
    leftless_advances among open_ fun there =>
      (all.binary there).mono fun _ _ _ _ => trivial
  have powerless (open_ : c.next.kind ≠ .endOfFile) :
      Advances (leftless c.next (Grammar.power n)) c
        fun e after => Built tokens c.nextId (.expr e) after.nextId :=
    leftless_advances among open_ fun there =>
      (all.power there).mono fun _ _ _ _ => trivial
  apply Advances.of_next
  split
  · next found => exact literal_advances among found nofun
  · next found => exact literal_advances among found nofun
  · next found => exact literal_advances among found nofun
  · next found => exact literal_advances among found nofun
  · next found => exact literal_advances among found nofun
  · next found =>
    apply step_advances among.closed (found ▸ nofun)
    intro middle _ stepped
    apply Advances.bind (.of_reads (reference_reads _ middle))
    rintro _ _ _ ⟨rfl, rfl⟩
    rw [← stepped.nextId]
    exact .pure (.this (among.member stepped) found)
  · next found =>
    apply step_advances among.closed (found ▸ nofun)
    intro dot onward stepped
    apply Advances.bind (.of_reads (expectSymbol_reads _ _ dot))
    intro _ name further _
    have there := (among.onward onward).onward further
    apply Advances.bind (.of_reads (expectName_reads _ name))
    intro method last _ ⟨named, final⟩
    apply Advances.bind (.of_reads (reference_reads _ last))
    rintro _ _ _ ⟨rfl, rfl⟩
    have given : Built tokens last.nextId (.expr (.super ⟨last.nextId, c.next⟩ method))
        (last.nextId + 1) := .super (among.member stepped) found (there.name final named)
    have lower : c.nextId ≤ last.nextId := by
      have advanced := further.nextId
      rw [stepped.nextId] at advanced
      rw [final.nextId]
      exact advanced
    exact .pure (given.lowered lower)
  · next found =>
    apply step_advances among.closed (found ▸ nofun)
    intro middle _ stepped
    apply Advances.bind (.of_reads (reference_reads _ middle))
    rintro _ _ _ ⟨rfl, rfl⟩
    rw [← stepped.nextId]
    exact .pure (.variable (among.name stepped found))
  · next found =>
    apply step_advances among.closed (found ▸ nofun)
    intro middle onward stepped
    have same := stepped.nextId
    apply Advances.bind (all.assignment (among.onward onward))
    intro inner last _ built
    rw [same] at built
    apply Advances.bind (.of_reads (expectSymbol_reads _ _ last))
    intro _ after beyond _
    exact .pure (.grouping (built.raised beyond.nextId))
  -- an operator with nothing on its left, tier by tier
  iterate 10
    · next found => exact tierless (found ▸ nofun)
  · next found => exact powerless (found ▸ nofun)
  · exact .reject

end ExpressionsBuild

theorem expressionsBuild (tokens : List Token) (n : Nat) : ExpressionsBuild tokens n := by
  induction n with
  | zero => constructor <;> intros <;> exact .exhausted
  | succ n ih =>
    exact ⟨ih.assignment_succ, ih.conditional_succ, fun among => ih.binary_succ among _,
      fun among built => ih.binaryRest_succ among built, fun among => ih.operand_succ among _, ih.power_succ, ih.unary_succ,
      ih.call_succ, fun among built => ih.callRest_succ among built, fun among => ih.arguments_succ among _, ih.primary_succ⟩

end LoxLang.Grammar
