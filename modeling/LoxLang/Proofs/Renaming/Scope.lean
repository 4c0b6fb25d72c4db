import LoxLang.Proofs.Pairs
import LoxLang.Proofs.Renaming.Alike
import LoxLang.Proofs.Scope.Resolution

/-! Two walks over scopes that are alike up to a renaming. The scopes have the same entries but for the
names that marked scopes give them, so a reference is found in the same scope by both walks. For that
its mark must be that of the scope it leads to, and it is, because the depths that the renaming follows
are those of the scopes themselves. Both programs have all scopes. -/
namespace LoxLang
namespace Comparison
open Grammar Scope Renaming

variable (ρ : Comparison)

/-- The second scope has the entries of the first one, under the names that the scope gives them. -/
structure TableAlike (marked : Bool) (t t' : Table Bool) : Prop where
  same : ∀ name, name ≠ ρ.new → t'.get? (ρ.name marked name) = t.get? name
  image : ∀ key, t'.contains key → ∃ name, name ≠ ρ.new ∧ key = ρ.name marked name

inductive ScopesAlike : List Bool → List (Table Bool) → List (Table Bool) → Prop
  | top : ScopesAlike [] [] []
  | inside {marked marks t t' outer outer'} (here : ρ.TableAlike marked t t')
    (around : ScopesAlike marks outer outer') :
    ScopesAlike (marked :: marks) (t :: outer) (t' :: outer')

/-- The states of two walks that are inside the same levels. -/
structure StatesAlike (levels : List Level) (marks : List Bool) (s s' : State) : Prop where
  whole : ρ.omits = false
  inside : s.scopes = levels.map Level.names
  scopes : ρ.ScopesAlike marks s.scopes s'.scopes
  depths : s'.depths = s.depths
  reported : s'.reported.length = s.reported.length

/-- Entered inside the same levels, the walks end inside the same levels, or both stop at a fault. -/
def Follows (walk walk' : Walk Unit) (levels after : List Level) (marks : List Bool) : Prop :=
  ∀ s s', ρ.StatesAlike levels marks s s' →
    Pairs walk walk' s s' (fun _ t _ t' => ρ.StatesAlike after marks t t') fun _ _ _ _ => True

/-- The depths that the renaming follows are those of the scopes around each occurrence. -/
def Recorded (found : List Occurrence) : Prop := ∀ o ∈ found, ρ.depths[o.id]? = o.depth?

variable {ρ} {marked : Bool} {marks : List Bool} {levels middle after : List Level}

namespace TableAlike

variable {t t' : Table Bool}

theorem nil : ρ.TableAlike marked [] [] := ⟨fun _ _ => rfl, fun _ contained => nomatch contained⟩

theorem contains (alike : ρ.TableAlike marked t t') {name : String} (fresh : name ≠ ρ.new) :
    t'.contains (ρ.name marked name) = t.contains name := by
  rw [Table.contains, alike.same name fresh, Table.contains]

/-- Whatever mark led to it, a name is in the second scope only if it is in the first one. -/
theorem contains_of (alike : ρ.TableAlike marked t t') {name : String} (fresh : name ≠ ρ.new)
    {other : Bool} (contained : t'.contains (ρ.name other name)) : t.contains name := by
  obtain ⟨key, fresh', same⟩ := alike.image _ contained
  obtain rfl := name_inj fresh fresh' same
  rw [← alike.contains fresh, ← same]
  exact contained

theorem set (alike : ρ.TableAlike marked t t') {name : String} (fresh : name ≠ ρ.new) (ready : Bool) :
    ρ.TableAlike marked (t.set name ready) (t'.set (ρ.name marked name) ready) where
  same other fresh' := by
    rw [Table.get?_set, Table.get?_set, alike.same other fresh']
    by_cases named : other = name
    · simp [named]
    · rw [if_neg named, if_neg fun same => named (name_inj fresh' fresh same)]
  image key contained := by
    rcases (Table.contains_set _ _ _ _).mp contained with same | old
    · exact ⟨name, fresh, same⟩
    · exact alike.image key old

end TableAlike

namespace ScopesAlike

variable {ts ts' : List (Table Bool)}

/-- A name is found in the same scope, if it is looked for under the name that this scope gives it. -/
theorem findIdx? (alike : ρ.ScopesAlike marks ts ts') {name : String} (fresh : name ≠ ρ.new)
    (led : ∀ d, ts.findIdx? (·.contains name) = some d → marks[d]? = some marked) :
    ts'.findIdx? (·.contains (ρ.name marked name)) = ts.findIdx? (·.contains name) := by
  induction alike with
  | top => rfl
  | @inside here_marked marks t t' outer outer' here around ih =>
    rw [List.findIdx?_cons] at led ⊢
    rw [List.findIdx?_cons]
    by_cases contained : t.contains name
    · rw [if_pos contained] at led ⊢
      obtain rfl : here_marked = marked := Option.some.inj (led 0 rfl)
      rw [here.contains fresh, if_pos contained]
    · rw [if_neg contained] at led ⊢
      rw [if_neg fun found => contained (here.contains_of fresh found)]
      congr 1
      apply ih
      intro d found
      exact led (d + 1) (by rw [found]; rfl)

theorem lt_of_findIdx? (alike : ρ.ScopesAlike marks ts ts') {p : Table Bool → Bool} {d : Nat}
    (found : ts.findIdx? p = some d) : d < marks.length := by
  induction alike generalizing d with
  | top => cases found
  | inside here around ih =>
    rw [List.findIdx?_cons] at found
    split at found
    · cases found
      exact Nat.succ_pos _
    · obtain ⟨d', found', rfl⟩ := Option.map_eq_some_iff.mp found
      exact Nat.succ_lt_succ (ih found')

end ScopesAlike

namespace StatesAlike

variable {s s' : State} {r r' : Reference}

/-- The mark of a reference is that of the scope in which its name is found. -/
theorem led (alike : ρ.StatesAlike levels marks s s') {use : Use}
    (recorded : ρ.Recorded [⟨use, r, levels⟩]) (d : Nat)
    (found : s.scopes.findIdx? (·.contains r.name.lexeme) = some d) :
    marks[d]? = some (ρ.leads marks r.id) := by
  have depth : ρ.depths[r.id]? = some d := by
    rw [← found, alike.inside, List.findIdx?_map]
    exact recorded _ (List.mem_singleton_self _)
  have there := alike.scopes.lt_of_findIdx? found
  simp only [leads, depth, List.getElem?_eq_getElem there, Option.getD_some]

theorem findIdx? (alike : ρ.StatesAlike levels marks s s') (refers : ρ.Refers marks r r') {use : Use}
    (recorded : ρ.Recorded [⟨use, r, levels⟩]) :
    s'.scopes.findIdx? (·.contains r'.name.lexeme) =
      s.scopes.findIdx? (·.contains r.name.lexeme) := by
  rw [refers.name.lexeme]
  exact alike.scopes.findIdx? refers.name.fresh (alike.led recorded)

/-- A name that is pending is the name of the innermost scope. -/
theorem pending (alike : ρ.StatesAlike levels marks s s') (refers : ρ.Refers marks r r') {use : Use}
    (recorded : ρ.Recorded [⟨use, r, levels⟩]) :
    s'.scopes.head?.bind (·.get? r'.name.lexeme) = s.scopes.head?.bind (·.get? r.name.lexeme) := by
  have led := alike.led recorded
  have scopes := alike.scopes
  rw [refers.name.lexeme]
  generalize s.scopes = ts at *
  generalize s'.scopes = ts' at *
  cases scopes with
  | top => rfl
  | @inside here_marked marks t t' outer outer' here around =>
    change t'.get? _ = t.get? _
    by_cases contained : t.contains r.name.lexeme
    · have first : (t :: outer).findIdx? (·.contains r.name.lexeme) = some 0 := by
        rw [List.findIdx?_cons, if_pos contained]
      obtain same : here_marked = _ := Option.some.inj (led 0 first)
      rw [← same]
      exact here.same _ refers.name.fresh
    · have absent : ¬ t'.contains (ρ.name (ρ.leads (here_marked :: marks) r.id) r.name.lexeme) :=
        fun found => contained (here.contains_of refers.name.fresh found)
      rw [Option.not_isSome_iff_eq_none.mp absent, Option.not_isSome_iff_eq_none.mp contained]

end StatesAlike

namespace Follows

variable {walk walk' first first' second second' : Walk Unit} {context context' : Context}
  {r r' : Reference} {name name' : Token}

theorem pure : ρ.Follows (Pure.pure ()) (Pure.pure ()) levels levels marks := fun _ _ alike => alike

theorem bind (one : ρ.Follows first first' levels middle marks)
    (two : ρ.Follows second second' middle after marks) :
    ρ.Follows (first >>= fun _ => second) (first' >>= fun _ => second') levels after marks :=
  fun s s' alike => (one s s' alike).bind fun _ t _ t' => two t t'

theorem report (cause cause' : ScopeError.Cause) (t t' : Token) :
    ρ.Follows (Scope.report cause t) (Scope.report cause' t') levels levels marks := by
  intro s s' alike
  refine ⟨alike.whole, alike.inside, alike.scopes, alike.depths, ?_⟩
  simp [alike.reported]

theorem inside {site : Site} {level : Level}
    (inner : ρ.Follows walk walk' (⟨site, []⟩ :: levels) (level :: levels) (marked :: marks)) :
    ρ.Follows (Scope.inside walk) (Scope.inside walk') levels levels marks := by
  intro s s' alike
  have opened : Pairs (modify fun s : State => { s with scopes := [] :: s.scopes } : Walk PUnit)
      (modify fun s : State => { s with scopes := [] :: s.scopes }) s s'
      (fun _ t _ t' => ρ.StatesAlike (⟨site, []⟩ :: levels) (marked :: marks) t t')
      fun _ _ _ _ => True := by
    apply Pairs.modify
    refine ⟨alike.whole, ?_, .inside .nil alike.scopes, alike.depths, alike.reported⟩
    change [] :: s.scopes = _
    rw [alike.inside]
    rfl
  apply opened.bind
  intro _ t _ t' entered
  apply (inner t t' entered).bind
  intro _ u _ u' left
  apply Pairs.modify
  refine ⟨alike.whole, ?_, ?_, left.depths, left.reported⟩
  · change u.scopes.tail = _
    rw [left.inside]
    rfl
  · have scopes := left.scopes
    change ρ.ScopesAlike marks u.scopes.tail u'.scopes.tail
    generalize u.scopes = ts at scopes
    generalize u'.scopes = ts' at scopes
    cases scopes with
    | inside _ around => exact around

theorem locate (refers : ρ.Refers marks r r') {use : Use}
    (recorded : ρ.Recorded [⟨use, r, levels⟩]) :
    ρ.Follows (Scope.locate r) (Scope.locate r') levels levels marks := by
  intro s s' alike
  have same := alike.findIdx? refers recorded
  cases found : s.scopes.findIdx? (·.contains r.name.lexeme) with
  | none =>
    have ended : Scope.locate r s = .ok () s := by simp only [Scope.locate, found]
    have ended' : Scope.locate r' s' = .ok () s' := by simp only [Scope.locate, same, found]
    exact .of_ok ended ended' alike
  | some d =>
    have ended : Scope.locate r s = .ok () { s with depths := s.depths.insert r.id d } := by
      simp only [Scope.locate, found]
    have ended' : Scope.locate r' s' = .ok () { s' with depths := s'.depths.insert r'.id d } := by
      simp only [Scope.locate, same, found]
    refine .of_ok ended ended' ⟨alike.whole, alike.inside, alike.scopes, ?_, alike.reported⟩
    change s'.depths.insert r'.id d = s.depths.insert r.id d
    rw [alike.depths, refers.id alike.whole]

theorem readVariable (refers : ρ.Refers marks r r') {use : Use}
    (recorded : ρ.Recorded [⟨use, r, levels⟩]) :
    ρ.Follows (Scope.readVariable r) (Scope.readVariable r') levels levels marks := by
  intro s s' alike
  have got : Pairs (get : Walk State) get s s' (fun a t a' t' => (a = s ∧ a' = s') ∧ t = s ∧ t' = s')
      fun _ _ _ _ => True := ⟨⟨rfl, rfl⟩, rfl, rfl⟩
  apply got.bind
  rintro _ _ _ _ ⟨⟨rfl, rfl⟩, rfl, rfl⟩
  rw [alike.pending refers recorded]
  split
  · exact .throw trivial
  · exact locate refers recorded _ _ alike

theorem readThis (refers : ρ.Refers marks r r') {use : Use}
    (recorded : ρ.Recorded [⟨use, r, levels⟩]) :
    ρ.Follows (Scope.readThis context r) (Scope.readThis context r') levels levels marks := by
  unfold Scope.readThis
  split
  · exact report _ _ _ _
  · exact locate refers recorded

theorem readSuper (refers : ρ.Refers marks r r') {use : Use}
    (recorded : ρ.Recorded [⟨use, r, levels⟩]) :
    ρ.Follows (Scope.readSuper context r) (Scope.readSuper context r') levels levels marks := by
  unfold Scope.readSuper
  split
  · exact report _ _ _ _
  · exact report _ _ _ _
  · exact locate refers recorded

/-- The name becomes what the innermost scope makes of it; at the top level there is none. -/
theorem mark {text text' : String} (same : text' = ρ.name (marks.headD false) text)
    (fresh : text ≠ ρ.new) (ready : Bool) :
    ρ.Follows (Scope.mark text ready) (Scope.mark text' ready) levels (markIn text ready levels)
      marks := by
  intro s s' alike
  obtain ⟨scopes, depths, reported⟩ := s
  obtain ⟨scopes', depths', reported'⟩ := s'
  subst same
  cases levels with
  | nil =>
    cases alike.inside
    cases alike.scopes
    exact alike
  | cons level outer =>
    cases alike.inside
    cases alike.scopes with
    | inside here around =>
      exact ⟨alike.whole, rfl, .inside (here.set fresh ready) around, alike.depths, alike.reported⟩

theorem declare (becomes : ρ.Becomes (marks.headD false) name name') :
    ρ.Follows (Scope.declare name) (Scope.declare name') levels (markIn name.lexeme false levels)
      marks := by
  intro s s' alike
  have marked := mark becomes.lexeme becomes.fresh false s s' alike
  obtain ⟨scopes, depths, reported⟩ := s
  obtain ⟨scopes', depths', reported'⟩ := s'
  cases levels with
  | nil =>
    cases alike.inside
    cases alike.scopes
    exact alike
  | cons level outer =>
    cases alike.inside
    cases alike.scopes with
    | @inside marked' marks t t' outer outer' here around =>
      have contained : t'.contains name'.lexeme = level.names.contains name.lexeme := by
        rw [becomes.lexeme]
        exact here.contains becomes.fresh
      unfold Pairs Scope.declare
      dsimp only [List.map_cons]
      rw [contained]
      by_cases twice : level.names.contains name.lexeme
      · simp only [twice, if_true]
      · simp only [twice, Bool.false_eq_true, if_false]
        exact marked

/-- A name that has been declared becomes ready. -/
theorem readied (becomes : ρ.Becomes (marks.headD false) name name') :
    ρ.Follows (Scope.mark name.lexeme true) (Scope.mark name'.lexeme true)
      (markIn name.lexeme false levels) (markIn name.lexeme true levels) marks := by
  rw [← markIn_markIn name.lexeme false true levels]
  exact mark becomes.lexeme becomes.fresh true

theorem introduce (becomes : ρ.Becomes (marks.headD false) name name') :
    ρ.Follows (Scope.introduce name) (Scope.introduce name') levels (markIn name.lexeme true levels)
      marks := (declare becomes).bind (readied becomes)

theorem introduceAll {ps ps' : List Token} (becomes : List.Forall₂ (ρ.Becomes marked) ps ps')
    {site : Site} {names : Table Bool} :
    ρ.Follows (Scope.introduceAll ps) (Scope.introduceAll ps') (⟨site, names⟩ :: levels)
      (⟨site, ps.foldl (fun names p => names.set p.lexeme true) names⟩ :: levels)
      (marked :: marks) := by
  induction becomes generalizing names with
  | nil => exact .pure
  | @cons p p' ps ps' first rest ih =>
    have one : ρ.Follows (Scope.introduce p) (Scope.introduce p') (⟨site, names⟩ :: levels)
        (⟨site, names.set p.lexeme true⟩ :: levels) (marked :: marks) := introduce first
    exact one.bind ih

end Follows

end Comparison
end LoxLang
