import LoxLang.Evaluation
import LoxLang.Proofs.Renaming.Alike

/-! Values of two runs that are alike up to a renaming. The runs make the same functions, classes and
instances in the same order, and the frames of the first one have twins in the second, but for those of
scopes that it does not have. What the runs have in common is told by a layout: of each frame of the first
one which frame encloses it, whether it belongs to a marked scope, and its twin. Two functions are alike if
they are closed over frames from which outward the scopes are the same, and their declarations are alike
inside scopes with the marks of those frames. A layout only grows, and values that are alike stay so. -/
namespace LoxLang

theorem optionRel_mono {α β : Type} {R R' : α → β → Prop} {a : Option α} {b : Option β}
    (weaker : ∀ a b, R a b → R' a b) (related : Option.Rel R a b) : Option.Rel R' a b := by
  cases related with
  | none => exact .none
  | some related => exact .some (weaker _ _ related)

/-- The frame of the second run that stands for one of the first, and what encloses it there. -/
structure Twin where
  frame : FrameId
  enclosing : Option FrameId

/-- What the two runs have in common of a frame of the first one. -/
structure FramePlan where
  marked : Bool
  enclosing : Option FrameId
  twin : Option Twin

abbrev Layout := List FramePlan

/-- The frames stand for each other, and were made for a scope with this mark. -/
def Layout.Twins (w : Layout) (marked : Bool) (frame frame' : FrameId) : Prop :=
  ∃ enclosing enclosing', w[frame.index]? = some ⟨marked, enclosing, some ⟨frame', enclosing'⟩⟩

namespace Layout

variable {w after : Layout}

theorem kept (grown : w <+: after) {index : Nat} {plan : FramePlan} (there : w[index]? = some plan) :
    after[index]? = some plan := by
  obtain ⟨added, rfl⟩ := grown
  obtain ⟨bound, _⟩ := List.getElem?_eq_some_iff.mp there
  rw [List.getElem?_append_left bound, there]

/-- A frame has one twin, and one mark. -/
theorem Twins.unique {marked marked' : Bool} {frame frame' frame'' : FrameId}
    (twins : w.Twins marked frame frame') (twins' : w.Twins marked' frame frame'') :
    marked = marked' ∧ frame' = frame'' := by
  obtain ⟨_, _, there⟩ := twins
  obtain ⟨_, _, there'⟩ := twins'
  rw [there] at there'
  cases there'
  exact ⟨rfl, rfl⟩

/-- A frame of a layout with one more frame is that one or an old one. -/
theorem getElem?_concat {plan plan' : FramePlan} {index : Nat}
    (there : (w ++ [plan])[index]? = some plan') :
    index = w.length ∧ plan = plan' ∨ index ≠ w.length ∧ w[index]? = some plan' := by
  rcases Nat.lt_trichotomy index w.length with below | last | above
  · rw [List.getElem?_append_left below] at there
    exact .inr ⟨Nat.ne_of_lt below, there⟩
  · subst last
    rw [List.getElem?_concat_length] at there
    exact .inl ⟨rfl, Option.some.inj there⟩
  · have outside : (w ++ [plan]).length ≤ index := by
      rw [List.length_append, List.length_singleton]
      exact above
    rw [List.getElem?_eq_none outside] at there
    cases there

end Layout

namespace Comparison
open Grammar Renaming

variable (ρ : Comparison) (w : Layout)

/-- From these frames outward the frames of the first run are those of scopes with these marks, up to the
globals, and those of the second run are their twins; it has none for marked scopes that are omitted. -/
inductive Chain : FrameId → FrameId → List Bool → Prop
  | globals {frame frame'} (there : w[frame.index]? = some ⟨false, none, some ⟨frame', none⟩⟩) :
    Chain frame frame' []
  | inside {frame frame' outer outer' marked marks}
    (there : w[frame.index]? = some ⟨marked, some outer, some ⟨frame', some outer'⟩⟩)
    (stays : ρ.Stays marked) (around : Chain outer outer' marks) : Chain frame frame' (marked :: marks)
  | omitted {frame outer outer' marks} (there : w[frame.index]? = some ⟨true, some outer, none⟩)
    (omits : ρ.omits = true) (around : Chain outer outer' marks) : Chain frame outer' (true :: marks)

/-- The functions are made alike; inside their closures their declarations stand in further scopes
with the marks `inner`. The scope just around an initializer, that of `this`, is there in both runs. -/
structure FunctionAlike (inner : List Bool) (f f' : Function) : Prop where
  id : f'.id = f.id
  isInitializer : f'.isInitializer = f.isInitializer
  routine : ∃ marks, ρ.Chain w f.closure f'.closure marks ∧
    (f.isInitializer = true → ρ.Stays ((inner ++ marks).headD false)) ∧
    ρ.Alike (inner ++ marks) (.routine f.declaration) (.routine f'.declaration)

/-- A method is not yet inside the scope of `this`. -/
abbrev MethodAlike : Function → Function → Prop := ρ.FunctionAlike w [false]

structure ClassAlike (c c' : Class) : Prop where
  id : c'.id = c.id
  name : c'.name = c.name
  methods : ∀ name, Option.Rel (ρ.MethodAlike w) (c.findMethod? name) (c'.findMethod? name)

inductive ValueAlike : Value → Value → Prop
  | nil : ValueAlike .nil .nil
  | boolean {b} : ValueAlike (.boolean b) (.boolean b)
  | number {x} : ValueAlike (.number x) (.number x)
  | string {s} : ValueAlike (.string s) (.string s)
  | native {f} : ValueAlike (.native f) (.native f)
  | function {f f'} (alike : ρ.FunctionAlike w [] f f') : ValueAlike (.function f) (.function f')
  | class_ {c c'} (alike : ρ.ClassAlike w c c') : ValueAlike (.class_ c) (.class_ c')
  | instance_ {i i' : Instance} (id : i'.id = i.id) (alike : ρ.ClassAlike w i.cls i'.cls) :
    ValueAlike (.instance_ i) (.instance_ i')

inductive CallableAlike : Callable → Callable → Prop
  | native {f} : CallableAlike (.native f) (.native f)
  | function {f f'} (alike : ρ.FunctionAlike w [] f f') : CallableAlike (.function f) (.function f')
  | class_ {c c'} (alike : ρ.ClassAlike w c c') : CallableAlike (.class_ c) (.class_ c')

inductive CompletionAlike : Completion → Completion → Prop
  | normal : CompletionAlike .normal .normal
  | returned {v v'} (alike : ρ.ValueAlike w v v') : CompletionAlike (.returned v) (.returned v')

variable {ρ w} {after : Layout} {inner : List Bool}

theorem Chain.grown {frame frame' : FrameId} {marks : List Bool} (chain : ρ.Chain w frame frame' marks)
    (grown : w <+: after) : ρ.Chain after frame frame' marks := by
  induction chain with
  | globals there => exact .globals (Layout.kept grown there)
  | inside there stays _ ih => exact .inside (Layout.kept grown there) stays ih
  | omitted there omits _ ih => exact .omitted (Layout.kept grown there) omits ih

/-- A scope that stays has a twin; the globals are not marked. -/
theorem Chain.head_twins {frame frame' : FrameId} {marks : List Bool}
    (chain : ρ.Chain w frame frame' marks) (stays : ρ.Stays (marks.headD false)) :
    w.Twins (marks.headD false) frame frame' := by
  cases chain with
  | globals there => exact ⟨_, _, there⟩
  | inside there _ _ => exact ⟨_, _, there⟩
  | omitted _ omits _ => cases stays omits

/-- The first frame of a chain is in the layout. -/
theorem Chain.there {frame frame' : FrameId} {marks : List Bool} (chain : ρ.Chain w frame frame' marks) :
    frame.index < w.length := by
  cases chain with
  | globals there | inside there _ _ | omitted there _ _ => exact (List.getElem?_eq_some_iff.mp there).1

section Growth

variable (growth : w <+: after)
include growth

theorem FunctionAlike.grown {f f' : Function} (alike : ρ.FunctionAlike w inner f f') :
    ρ.FunctionAlike after inner f f' := by
  obtain ⟨marks, chain, routine⟩ := alike.routine
  exact { alike with routine := ⟨marks, chain.grown growth, routine⟩ }

theorem ClassAlike.grown {c c' : Class} (alike : ρ.ClassAlike w c c') : ρ.ClassAlike after c c' where
  id := alike.id
  name := alike.name
  methods name := optionRel_mono (fun _ _ found => found.grown growth) (alike.methods name)

theorem ValueAlike.grown {v v' : Value} (alike : ρ.ValueAlike w v v') : ρ.ValueAlike after v v' := by
  cases alike with
  | nil => exact .nil
  | boolean => exact .boolean
  | number => exact .number
  | string => exact .string
  | native => exact .native
  | function alike => exact .function (alike.grown growth)
  | class_ alike => exact .class_ (alike.grown growth)
  | instance_ id alike => exact .instance_ id (alike.grown growth)

end Growth

namespace FunctionAlike

variable {f f' : Function}

theorem name (alike : ρ.FunctionAlike w inner f f') : f'.name = f.name := by
  obtain ⟨_, _, _, routine⟩ := alike.routine
  unfold Function.name
  generalize f.declaration = d at *
  generalize f'.declaration = d' at *
  cases routine with
  | routine _ same _ _ => exact same.lexeme

theorem arity (alike : ρ.FunctionAlike w inner f f') : f'.arity = f.arity := by
  obtain ⟨_, _, _, routine⟩ := alike.routine
  unfold Function.arity
  generalize f.declaration = d at *
  generalize f'.declaration = d' at *
  cases routine with
  | routine _ _ becomes _ => exact becomes.length_eq.symm

end FunctionAlike

theorem ClassAlike.arity {c c' : Class} (alike : ρ.ClassAlike w c c') : c'.arity = c.arity := by
  have found := alike.methods initializerName
  unfold Class.arity
  generalize c.findMethod? initializerName = method at *
  generalize c'.findMethod? initializerName = method' at *
  cases found with
  | none => rfl
  | some alike => exact alike.arity

theorem CallableAlike.arity {f f' : Callable} (alike : ρ.CallableAlike w f f') : f'.arity = f.arity := by
  cases alike with
  | native => rfl
  | function alike => exact alike.arity
  | class_ alike => exact alike.arity

namespace ValueAlike

variable {v v' u u' : Value}

theorem literal (l : Literal) : ρ.ValueAlike w l.value l.value := by
  cases l with
  | number x => exact .number
  | string s => exact .string
  | boolean b => exact .boolean
  | nil => exact .nil

theorem callable? (alike : ρ.ValueAlike w v v') :
    Option.Rel (ρ.CallableAlike w) v.callable? v'.callable? := by
  cases alike with
  | native => exact .some .native
  | function alike => exact .some (.function alike)
  | class_ alike => exact .some (.class_ alike)
  | _ => exact .none

theorem isTruthy (alike : ρ.ValueAlike w v v') : v'.isTruthy = v.isTruthy := by
  cases alike <;> rfl

/-- Values that are alike are shown alike. -/
theorem display (alike : ρ.ValueAlike w v v') : v'.display = v.display := by
  cases alike with
  | function alike => simp only [Value.display, alike.name]
  | class_ alike => simp only [Value.display, alike.name]
  | instance_ _ alike => simp only [Value.display, alike.name]
  | _ => rfl

/-- Identities are given out alike. -/
theorem equals (alike : ρ.ValueAlike w v v') (other : ρ.ValueAlike w u u') :
    v'.equals u' = v.equals u := by
  cases alike with
  | function alike =>
    cases other with
    | function other => simp only [Value.equals, alike.id, other.id]
    | _ => rfl
  | class_ alike =>
    cases other with
    | class_ other => simp only [Value.equals, alike.id, other.id]
    | _ => rfl
  | instance_ id _ =>
    cases other with
    | instance_ id' _ => simp only [Value.equals, id, id']
    | _ => rfl
  | _ => cases other <;> rfl

end ValueAlike

end Comparison
end LoxLang
