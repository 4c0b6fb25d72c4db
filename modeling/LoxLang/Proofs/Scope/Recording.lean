import LoxLang.Proofs.Ends
import LoxLang.Proofs.Scope.Occurrence
import LoxLang.Proofs.Token.Spelling

/-! What the walk over a program records. Started inside the levels of a tree, the walk ends inside
the levels behind it, leaves the records of other references alone, and, where it reports nothing,
records of every occurrence how far out its name is declared. References are told apart by the
identities that the grammar gave them, which is why a part of the walk keeps to an interval. -/
namespace LoxLang

theorem Table.set_set {α : Type} (t : Table α) (name : String) (a b : α) :
    (t.set name a).set name b = t.set name b := by
  induction t with
  | nil => simp [Table.set]
  | cons pair rest ih =>
    obtain ⟨key, c⟩ := pair
    by_cases same : name = key
    · simp [Table.set, same]
    · simp [Table.set, same, ih]

theorem Table.contains_set {α : Type} (t : Table α) (name other : String) (a : α) :
    (t.set name a).contains other = true ↔ other = name ∨ t.contains other = true := by
  unfold Table.contains
  rw [Table.get?_set]
  by_cases same : other = name <;> simp [same]

namespace Scope

theorem locate_none {r : Reference} {s : State}
    (global : s.scopes.findIdx? (·.contains r.name.lexeme) = none) : locate r s = .ok () s := by
  simp only [locate, global]

theorem locate_some {r : Reference} {s : State} {depth : Nat}
    (found : s.scopes.findIdx? (·.contains r.name.lexeme) = some depth) :
    locate r s = .ok () { s with depths := s.depths.insert r.id depth } := by
  simp only [locate, found]

theorem readVariable_eq (r : Reference) (s : State) : readVariable r s =
    if s.scopes.head?.bind (·.get? r.name.lexeme) = some false then
      .error ⟨.readInOwnInitializer, r.name⟩ s else locate r s := by
  unfold readVariable
  rw [bind_of_ok (show (get : Walk State) s = .ok s s from rfl)]
  split <;> rfl

/-- All names of a level are ready. -/
def Level.Ready (level : Level) : Prop := ∀ name ready, level.names.get? name = some ready → ready = true

/-- All names of these levels are ready, as they are around every statement. -/
def Ready (levels : List Level) : Prop := ∀ level ∈ levels, level.Ready

/-- Around an expression only a name of the innermost level may not be ready: that of the variable
which the expression initializes. -/
structure Usable (levels : List Level) : Prop where
  outer : Ready levels.tail
  pending : ∀ level ∈ levels.head?, ∀ name, level.names.get? name = some false →
    ∀ k : Keyword, name ≠ k.spelling

theorem Ready.usable {levels : List Level} (ready : Ready levels) : Usable levels := by
  refine ⟨fun level member => ready level (List.mem_of_mem_tail member), ?_⟩
  intro level head name pending
  have member := List.mem_of_mem_head? head
  cases ready level member name false pending

theorem Ready.cons {level : Level} {levels : List Level} (first : level.Ready)
    (ready : Ready levels) : Ready (level :: levels) := by
  intro other member
  obtain rfl | member := List.mem_cons.mp member
  · exact first
  · exact ready other member

theorem Level.Ready.set {level : Level} (ready : level.Ready) (name : String) :
    Level.Ready { level with names := level.names.set name true } := by
  intro other b found
  rw [Table.get?_set] at found
  split at found
  · exact (Option.some.inj found).symm
  · exact ready other b found

theorem Ready.markIn {levels : List Level} (ready : Ready levels) (name : String) :
    Ready (markIn name true levels) := by
  cases levels with
  | nil => exact ready
  | cons level outer =>
    exact .cons ((ready level List.mem_cons_self).set name) fun other member =>
      ready other (List.mem_cons_of_mem _ member)

theorem Ready.behind {levels : List Level} (ready : Ready levels) (s : Stmt) :
    Ready (behind s levels) := by
  unfold Scope.behind
  split
  · exact ready
  · exact ready.markIn _

/-- Around the initializer of a variable its own name is pending. -/
theorem Ready.pending {levels : List Level} (ready : Ready levels) {name : String}
    (free : ∀ k : Keyword, name ≠ k.spelling) : Usable (Scope.markIn name false levels) := by
  cases levels with
  | nil => exact ready.usable
  | cons level outer =>
    refine ⟨fun other member => ready other (List.mem_cons_of_mem _ member), ?_⟩
    rintro _ ⟨⟩ other pending
    rw [Table.get?_set] at pending
    split at pending
    · next same => exact same ▸ free
    · cases ready level List.mem_cons_self other false pending

/-- A name found at this distance is bound by then: it is ready in the level that declares it. -/
def Occurrence.Ready (o : Occurrence) : Prop :=
  o.use ≠ .write → ∀ d, o.depth? = some d →
    ∃ level, o.levels[d]? = some level ∧ level.names.get? o.name = some true

/-- What a part of the walk did that ended inside `after`. -/
structure Walked (s last : State) (after : List Level) (low high : Nat)
    (found : List Occurrence) : Prop where
  scopes : last.scopes = after.map Level.names
  reported : s.reported <+: last.reported
  others : ∀ id : Nat, id < low ∨ high ≤ id → last.depths[id]? = s.depths[id]?
  recorded : last.reported = s.reported →
    (∀ id : Nat, low ≤ id → id < high → s.depths[id]? = none) →
    ∀ o ∈ found, (low ≤ o.id ∧ o.id < high) ∧ last.depths[o.id]? = o.depth? ∧ o.Ready

/-- From inside these levels the walk ends inside `after`, or stops at a fault. -/
def Walks (walk : Walk Unit) (levels after : List Level) (low high : Nat)
    (found : List Occurrence) : Prop :=
  ∀ s : State, s.scopes = levels.map Level.names →
    Ends walk s (fun _ last => Walked s last after low high found) fun _ _ => True

namespace Walks

variable {walk first second : Walk Unit} {levels middle after : List Level}
  {low high low' high' low'' high'' : Nat} {found found' : List Occurrence}

theorem widen (walks : Walks walk levels after low' high' found) (below : low ≤ low')
    (above : high' ≤ high) : Walks walk levels after low high found := by
  intro s here
  apply (walks s here).mono _ fun _ _ => id
  intro _ last walked
  refine ⟨walked.scopes, walked.reported, fun id outside => walked.others id (by omega), ?_⟩
  intro clean fresh o member
  obtain ⟨bounds, record⟩ := walked.recorded clean (fun id _ _ => fresh id (by omega) (by omega)) o member
  exact ⟨by omega, record⟩

/-- What is found may be told by other occurrences of the same references. -/
theorem retold (walks : Walks walk levels after low high found)
    (told : ∀ o ∈ found', ∃ other ∈ found, o.id = other.id ∧ o.depth? = other.depth? ∧
      (other.Ready → o.Ready)) : Walks walk levels after low high found' := by
  intro s here
  apply (walks s here).mono _ fun _ _ => id
  intro _ last walked
  refine ⟨walked.scopes, walked.reported, walked.others, ?_⟩
  intro clean fresh o member
  obtain ⟨other, member, same, depth, ready⟩ := told o member
  obtain ⟨bounds, record, readied⟩ := walked.recorded clean fresh other member
  rw [same, depth]
  exact ⟨bounds, record, ready readied⟩

theorem pure : Walks (Pure.pure ()) levels levels low high [] := by
  intro s here
  exact ⟨here, List.prefix_refl _, fun _ _ => rfl, fun _ _ => nofun⟩

/-- A step that leaves the records alone. -/
theorem of_step (step : ∀ s : State, s.scopes = levels.map Level.names → Ends walk s
      (fun _ last => last.scopes = after.map Level.names ∧ s.reported <+: last.reported ∧
        last.depths = s.depths) fun _ _ => True) :
    Walks walk levels after low high [] := by
  intro s here
  apply (step s here).mono _ fun _ _ => id
  rintro _ last ⟨scopes, reported, depths⟩
  exact ⟨scopes, reported, fun id _ => by rw [depths], fun _ _ => nofun⟩

theorem report (cause : ScopeError.Cause) (t : Token) :
    Walks (Scope.report cause t) levels levels low high found := by
  intro s here
  refine ⟨here, List.prefix_append _ _, fun _ _ => rfl, fun clean => ?_⟩
  simp at clean

/-- Two parts of the walk one after the other, which keep to intervals of their own. -/
theorem bind (one : Walks first levels middle low' high' found)
    (two : Walks second middle after low'' high'' found') (inside : low ≤ low' ∧ high' ≤ high)
    (inside' : low ≤ low'' ∧ high'' ≤ high) (apart : high' ≤ low'' ∨ high'' ≤ low') :
    Walks (first >>= fun _ => second) levels after low high (found ++ found') := by
  intro s here
  apply Ends.bind (one s here)
  intro _ between _ walked
  apply (two between walked.scopes).mono _ fun _ _ => id
  intro _ last walked'
  refine ⟨walked'.scopes, walked.reported.trans walked'.reported, ?_, ?_⟩
  · intro id outside
    rw [walked'.others id (by omega), walked.others id (by omega)]
  · intro clean fresh o member
    have length := walked.reported.length_le
    have length' := walked'.reported.length_le
    have same : between.reported = s.reported := by
      apply (walked.reported.eq_of_length_le _).symm
      rw [clean] at length'
      exact length'
    have same' : last.reported = between.reported := clean.trans same.symm
    obtain member | member := List.mem_append.mp member
    · obtain ⟨bounds, record, ready⟩ := walked.recorded same
        (fun id _ _ => fresh id (by omega) (by omega)) o member
      refine ⟨by omega, ?_, ready⟩
      rw [walked'.others _ (by omega)]
      exact record
    · have fresh' : ∀ id : Nat, low'' ≤ id → id < high'' → between.depths[id]? = none := by
        intro id lower upper
        rw [walked.others id (by omega)]
        exact fresh id (by omega) (by omega)
      obtain ⟨bounds, record⟩ := walked'.recorded same' fresh' o member
      exact ⟨by omega, record⟩

/-- A step before a part of the walk. -/
theorem after_step (one : Walks first levels middle low low [])
    (two : Walks second middle after low high found) (ordered : low ≤ high) :
    Walks (first >>= fun _ => second) levels after low high found := by
  have inside : low ≤ low ∧ low ≤ high := by omega
  exact bind one two inside (by omega) (by omega)

/-- A step behind a part of the walk. -/
theorem before_step (one : Walks first levels middle low high found)
    (two : Walks second middle after high high []) (ordered : low ≤ high) :
    Walks (first >>= fun _ => second) levels after low high found := by
  have inside : low ≤ low ∧ high ≤ high := by omega
  have both := bind one two inside (by omega) (by omega)
  rwa [List.append_nil] at both

/-- A part of the walk in a scope of its own. -/
theorem inside {site : Site} {level : Level}
    (inner : Walks walk (⟨site, []⟩ :: levels) (level :: levels) low high found) :
    Walks (Scope.inside walk) levels levels low high found := by
  intro s here
  have opening : Ends (modify fun s : State => { s with scopes := [] :: s.scopes } : Walk PUnit) s
      (fun _ opened => opened = { s with scopes := [] :: s.scopes }) fun _ _ => True := rfl
  apply Ends.bind opening
  rintro _ _ _ rfl
  have entered : ([] :: s.scopes) = (⟨site, []⟩ :: levels).map Level.names := by
    rw [here]
    rfl
  apply Ends.bind (inner { s with scopes := [] :: s.scopes } entered)
  intro _ last _ walked
  apply Ends.modify
  refine ⟨?_, walked.reported, walked.others, walked.recorded⟩
  change last.scopes.tail = _
  rw [walked.scopes]
  rfl

end Walks

end Scope
end LoxLang
