import LoxLang.Proofs.Evaluation.Nesting
import LoxLang.Proofs.Evaluation.Super
import LoxLang.Proofs.Loop.Thinning
import LoxLang.Proofs.Renaming.Machine

/-! A machine of a run is like itself. In a layout in which each frame is its own twin, everything that the
run has made up to some moment is alike to itself, as long as the depths that are compared agree on what
occurs in the program; so two ways of going on from that moment can be compared. -/
namespace LoxLang

/-- Each frame is its own twin, and no scope is marked. -/
def Layout.itself (s : Store) : Layout :=
  (List.range s.frames.size).map fun index =>
    ⟨false, s.enclosing? ⟨index⟩, some ⟨⟨index⟩, s.enclosing? ⟨index⟩⟩⟩

namespace Layout

variable {s : Store} {frame frame' : FrameId} {marked : Bool}

theorem itself_length (s : Store) : (itself s).length = s.frames.size := by simp [itself]

theorem itself_there (there : frame.index < s.frames.size) :
    (itself s)[frame.index]? = some ⟨false, s.enclosing? frame, some ⟨frame, s.enclosing? frame⟩⟩ := by
  simp [itself, there]

theorem of_itself {plan : FramePlan} (there : (itself s)[frame.index]? = some plan) :
    frame.index < s.frames.size ∧ plan = ⟨false, s.enclosing? frame, some ⟨frame, s.enclosing? frame⟩⟩ := by
  have inside : frame.index < s.frames.size := by
    rw [← itself_length s]
    exact (List.getElem?_eq_some_iff.mp there).1
  rw [itself_there inside] at there
  exact ⟨inside, (Option.some.inj there).symm⟩

/-- A new frame is its own twin as well. -/
theorem itself_newFrame (s : Store) (enclosing : Option FrameId) (bindings : Table Value) :
    itself (s.newFrame enclosing bindings).2 =
      itself s ++ [⟨false, enclosing, some ⟨⟨s.frames.size⟩, enclosing⟩⟩] := by
  have size : (s.newFrame enclosing bindings).2.frames.size = s.frames.size + 1 := by
    simp [Store.newFrame]
  have last : (s.newFrame enclosing bindings).2.enclosing? ⟨s.frames.size⟩ = enclosing := by
    rw [Store.enclosing?_newFrame, if_pos rfl]
  unfold itself
  rw [size, List.range_succ, List.map_append, List.map_singleton, last]
  congr 1
  apply List.map_congr_left
  intro index inside
  rw [Store.enclosing?_newFrame, if_neg (Nat.ne_of_lt (List.mem_range.mp inside))]

theorem Twins.of_itself (twins : (itself s).Twins marked frame frame') :
    frame.index < s.frames.size ∧ marked = false ∧ frame' = frame := by
  obtain ⟨_, _, there⟩ := twins
  obtain ⟨inside, same⟩ := Layout.of_itself there
  cases same
  exact ⟨inside, rfl, rfl⟩

end Layout

namespace Comparison
open Eval Grammar Scope Renaming

/-- What is compared with the program of a run: its references have their depths in both comparisons, and
its names are free. -/
structure Reflects (ρ : Comparison) (run : Run) : Prop where
  thinning : ρ.Thinning .same (occurrences run.program) (occurrences run.program)
  free : stmtsNames ρ.Free ρ.FreeReference ρ.FreeReference run.program

variable {ρ : Comparison} {run : Run} {s : Store} {levels : List Level} {scopes : List Activation}

/-- Frames that mirror levels are a chain of scopes that are all there. -/
theorem Chain.of_mirrored {globals frame : FrameId} (outermost : s.enclosing? globals = none)
    (mirrored : Mirrored globals s levels scopes frame) :
    ρ.Chain (.itself s) frame frame (levels.map fun _ => false) := by
  induction mirrored with
  | top there =>
    apply Chain.globals
    rw [Layout.itself_there there, outermost]
  | inside _ _ _ _ enclosed _ ih =>
    refine .inside ?_ stays_false ih
    rw [Layout.itself_there (Store.enclosing?_some_lt enclosed), enclosed]

namespace Reflects

variable (reflects : ρ.Reflects run) (outermost : s.enclosing? run.first.globals = none)
include reflects

/-- A declaration of the program is alike to itself. -/
theorem routine {d : Declaration} (included : declarationOccurrences levels d ⊆ occurrences run.program)
    (names : declarationNames ρ.Free ρ.FreeReference ρ.FreeReference d) :
    ρ.Alike (levels.map fun _ => false) (.routine d) (.routine d) := by
  have same : Relabeling.same.declaration d = d := Relabeling.declaration_same d
  have alike := reflects.thinning.declaration _ _ _ d (.refl levels) included included names
  rwa [same] at alike

include outermost

theorem function {f : Function} (sound : run.FunctionSound s f) :
    ρ.FunctionAlike (.itself s) [] f f := by
  obtain ⟨levels, scopes, made, mirrored, included⟩ := sound
  refine ⟨rfl, rfl, _, .of_mirrored outermost mirrored, fun _ => ?_,
    reflects.routine included (made.names reflects.free)⟩
  cases levels <;> exact stays_false

theorem method {f : Function} (sound : run.MethodSound s f) : ρ.MethodAlike (.itself s) f f := by
  obtain ⟨methods, levels, scopes, made, mirrored, included⟩ := sound
  exact ⟨rfl, rfl, _, .of_mirrored outermost mirrored, fun _ => stays_false,
    reflects.routine included (made.names reflects.free)⟩

theorem class_ {c : Class} (sound : run.ClassSound s c) : ρ.ClassAlike (.itself s) c c := by
  refine ⟨rfl, rfl, fun name => ?_⟩
  cases found : c.findMethod? name with
  | none => exact .none
  | some f => exact .some (reflects.method outermost (sound name f found).2)

theorem value {v : Value} (sound : run.ValueSound s v) : ρ.ValueAlike (.itself s) v v := by
  cases v with
  | nil => exact .nil
  | boolean b => exact .boolean
  | number x => exact .number
  | string text => exact .string
  | native f => exact .native
  | function f => exact .function (reflects.function outermost sound)
  | class_ c => exact .class_ (reflects.class_ outermost sound)
  | instance_ i => exact .instance_ rfl (reflects.class_ outermost sound.2)

theorem store (sound : run.StoreSound s) : ρ.StoresAlike (.itself s) s s where
  size := (Layout.itself_length s).symm
  enclosing frame plan there := by
    rw [(Layout.of_itself there).2]
  enclosing' frame plan twin there made := by
    rw [(Layout.of_itself there).2] at made
    cases made
    rfl
  made frame frame' marked twins := by
    obtain ⟨inside, _, rfl⟩ := twins.of_itself
    exact inside
  apart frame other frame' marked marked' twins twins' :=
    twins.of_itself.2.2.symm.trans twins'.of_itself.2.2
  bindings frame frame' marked twins name _ := by
    obtain ⟨_, rfl, rfl⟩ := twins.of_itself
    rw [name_false]
    cases read : s.read? frame' name with
    | none => exact .none
    | some v => exact .some (reflects.value outermost (sound.bound _ _ v read))
  instances := rfl
  fields i i' same name := by
    have together : s.field? i' name = s.field? i name := by simp only [Store.field?, same]
    rw [together]
    cases read : s.field? i name with
    | none => exact .none
    | some v => exact .some (reflects.value outermost (sound.fields _ _ v read))
  functions := rfl
  classes := rfl

omit outermost in
/-- So is the whole machine, with the depths that are compared. -/
theorem machine {moment : Moment} (sound : run.SoundIn moment levels scopes)
    (rooted : Rooted run.first.globals moment.machine) (depths : moment.machine.depths = ρ.depths) :
    ρ.MachinesAlike (.itself moment.machine.store) (levels.map fun _ => false) moment.machine
      { moment.machine with depths := ρ.depths' } where
  chain := .of_mirrored rooted.outermost sound.mirrored
  top := by
    apply Chain.globals
    rw [rooted.same, Layout.itself_there rooted.there, rooted.outermost]
  depths
  depths' := rfl
  activeCalls := rfl
  store := reflects.store rooted.outermost sound.store
  output := rfl
  clock := rfl
  clockReadings := rfl

end Reflects
end Comparison
end LoxLang
