import LoxLang.Proofs.Evaluation.Delivery

/-! Reading what was located. Wherever a run reads a reference whose depth was recorded, the frame at
that depth is the one made for the scope that declares the name, in its activation around the code that
runs, and it binds the name. So such a reading never fails. -/
namespace LoxLang.Eval
open Scope

/-- The reference that the part reads first of all. -/
def Task.reads? : Task → Option Reference
  | .evaluate (.variable r) => some r
  | .evaluate (.this r) => some r
  | .execute (.class_ _ clause _) => clause
  | _ => none

/-- A program is interpreted statement by statement, so one can be cut in two anywhere. -/
theorem interpret_append (fuel : Nat) (done later : List Stmt) :
    interpret fuel (done ++ later) = (do interpret fuel done; interpret fuel later) := by
  induction done with
  | nil => rfl
  | cons s done ih => rw [List.cons_append, interpret, ih, interpret, bind_assoc]

namespace Run

variable {run : Run} {moment : Moment}

/-- The run is one of a program that calls nothing by a reserved word, and starts among its globals on a
sound store. -/
structure Fresh (run : Run) : Prop where
  plain : run.Plain
  current : run.first.current = run.first.globals
  there : run.first.globals.index < run.first.store.frames.size
  store : run.StoreSound run.first.store

/-- A name out of a text is no reserved word. -/
theorem plain_ofSource (fuel : Nat) (clock : Nat → Float) (source : String) (out : Sink) :
    (ofSource fuel clock source out).Plain := by
  have free (t : Token) (name : Grammar.IsName (scan source).1 t) : t.Unreserved :=
    (scan_fitting source t name.member).name name.kind
  obtain ⟨high, built⟩ := Grammar.readProgram_built (scan source).1
  exact built.names free (fun r => free r.name) fun _ _ => trivial

theorem fresh_ofSource (fuel : Nat) (clock : Nat → Float) (source : String) (out : Sink) :
    (ofSource fuel clock source out).Fresh where
  plain := plain_ofSource fuel clock source out
  current := rfl
  there := Nat.zero_lt_one
  store := by
    have empty : (ofSource fuel clock source out).StoreSound Store.empty := by
      constructor
      · intro frame name v found
        simp [Store.read?, Store.empty] at found
      · intro i name v found
        simp [Store.field?, Store.empty] at found
    have clock : (ofSource fuel clock source out).ValueSound .empty (.native .clock) := trivial
    exact empty.newWord none "clock" clock

/-- Where the statements executed so far left a sound store, the next one starts soundly. -/
theorem Fresh.starts (fresh : run.Fresh) {done rest : List Stmt} {s : Stmt} {m : Machine}
    (here : run.program = done ++ s :: rest) (before : interpret run.fuel done run.first = .ok () m)
    (store : run.StoreSound m.store) : run.SoundIn ⟨run.fuel, .execute s, m⟩ [] [] := by
  have same := ((restored_steady.interpret run.fuel done) run.first).ok_of before
  have grown := ((growing_steady.interpret run.fuel done) run.first).ok_of before
  refine ⟨fresh.plain, .start (.statement here before), ?_, store, ?_⟩
  · rw [same.current, fresh.current]
    exact .top (Nat.lt_of_lt_of_le fresh.there grown.size)
  · change stmtOccurrences [] s ⊆ occurrences run.program
    rw [here, occurrences_append]
    exact List.subset_append_of_subset_right _ (List.subset_append_left _ _)

/-- The statements executed so far left a sound store. -/
theorem Fresh.interpreted (fresh : run.Fresh) {done rest : List Stmt} {m : Machine}
    (here : run.program = done ++ rest) (before : interpret run.fuel done run.first = .ok () m) :
    run.StoreSound m.store := by
  have onward (earlier later : List Stmt) (middle : Machine)
      (here : run.program = earlier ++ (later ++ rest))
      (before : interpret run.fuel earlier run.first = .ok () middle)
      (after : interpret run.fuel later middle = .ok () m) (store : run.StoreSound middle.store) :
      run.StoreSound m.store := by
    induction later generalizing earlier middle with
    | nil =>
      cases after
      exact store
    | cons s later ih =>
      obtain ⟨c, next, ended, after⟩ := bind_eq_ok after
      have sound := fresh.starts here before store
      have one : interpret run.fuel [s] middle = .ok () next := by
        rw [interpret, bind_of_ok ended]
        rfl
      have joined : interpret run.fuel (earlier ++ [s]) run.first = .ok () next := by
        rw [interpret_append, bind_of_ok before, one]
      apply ih (earlier ++ [s]) next _ joined after
      · exact (sound.executed (allDeliver run run.fuel) ended).1.store
      · rw [List.append_assoc]
        exact here
  exact onward [] done run.first here rfl before fresh.store

/-- Every moment of a run is sound. -/
theorem Fresh.sound (fresh : run.Fresh) (reached : run.Reaches moment) : run.Sound moment := by
  induction reached with
  | start starts =>
    cases starts with
    | statement here before =>
      exact ⟨_, _, fresh.starts here before (fresh.interpreted here before)⟩
  | enter before enters ih => exact ih.enter enters

/-- The recorded depths stay the same throughout a run. -/
theorem Reaches.depths (reached : run.Reaches moment) : moment.machine.depths = run.first.depths := by
  induction reached with
  | start starts =>
    cases starts with
    | statement here before =>
      exact (((restored_steady.interpret _ _) run.first).ok_of before).depths
  | enter before enters ih => exact enters.depths.trans ih

/-- What a sound moment reads occurs in the program, at levels which its frames mirror. -/
theorem SoundIn.reading {levels : List Level} {scopes : List Activation} {r : Reference}
    (sound : run.SoundIn moment levels scopes) (reads : moment.task.reads? = some r) :
    ∃ use levels', use ≠ .write ∧ ⟨use, r, levels'⟩ ∈ occurrences run.program ∧
      Mirrored run.first.globals moment.machine.store levels' scopes moment.machine.current := by
  obtain ⟨fuel, task, m⟩ := moment
  have fit := sound.task
  cases task with
  | evaluate e =>
    cases e with
    | «variable» r' =>
      cases reads
      exact ⟨.read, levels, nofun, fit (List.mem_singleton_self _), sound.mirrored⟩
    | this r' =>
      cases reads
      exact ⟨.this, levels, nofun, fit (List.mem_singleton_self _), sound.mirrored⟩
    | _ => cases reads
  | execute s =>
    cases s with
    | class_ name clause methods =>
      cases reads
      have member : ⟨.read, r, markIn name.lexeme false levels⟩ ∈ occurrences run.program :=
        fit (List.mem_append_left _ (List.mem_singleton_self _))
      exact ⟨.read, _, nofun, member, sound.mirrored.markIn nofun⟩
    | _ => cases reads
  | _ => cases reads

end Run

theorem lookUp_of_read {r : Reference} {m : Machine} {d : Nat} {frame : FrameId} {v : Value}
    (recorded : m.depths[r.id]? = some d) (ancestor : m.store.ancestor? d m.current = some frame)
    (read : m.store.read? frame r.name.lexeme = some v) : lookUp r m = .ok v m := by
  have found := Store.getAt?_of_read ancestor read
  simp only [lookUp, recorded, found]
  rfl

theorem lookUp_of_binds {r : Reference} {m : Machine} {d : Nat} {frame : FrameId}
    (recorded : m.depths[r.id]? = some d) (ancestor : m.store.ancestor? d m.current = some frame)
    (bound : m.store.binds frame r.name.lexeme) : ∃ v, lookUp r m = .ok v m := by
  obtain ⟨v, read⟩ := Option.isSome_iff_exists.mp bound
  exact ⟨v, lookUp_of_read recorded ancestor read⟩

/-- The reference is located at this depth, and the frame there is in its place: the reference
occurs in the program inside `levels`, of which the one at the depth is the nearest that declares its
name; `scopes` are the activations around the code that runs, one for each level; and the frame made
for the activation at the depth is the one that many steps out from the current frame. -/
structure Run.Locates (run : Run) (moment : Moment) (r : Reference) (d : Nat) (levels : List Level)
    (scopes : List Activation) (level : Level) (activation : Activation) : Prop where
  occurs : ∃ use, ⟨use, r, levels⟩ ∈ occurrences run.program
  nearest : levels.findIdx? (·.names.contains r.name.lexeme) = some d
  chosen : levels[d]? = some level
  declares : level.site.Declares r.name.lexeme
  opened : run.Opened moment scopes
  sites : scopes.map Activation.site = levels.map Level.site
  active : scopes[d]? = some activation
  frame : moment.machine.store.ancestor? d moment.machine.current = some activation.frame
  binds : moment.machine.store.binds activation.frame r.name.lexeme

/-- In a program that is read and resolved without a fault, whenever a reference is read for which a
depth is recorded, the frame at that depth was made for the scope of the declaration, in its activation
around the code that runs, and binds the name, and the reading succeeds. -/
theorem located_reading_succeeds {fuel : Nat} {clock : Nat → Float} {source : String} {out : Sink}
    {moment : Moment} {r : Reference} {d : Nat}
    (clean : (resolve (Program.read source).statements).2 = [])
    (reached : (Run.ofSource fuel clock source out).Reaches moment)
    (reads : moment.task.reads? = some r)
    (recorded : (resolve (Program.read source).statements).1[r.id]? = some d) :
    (∃ levels scopes level activation,
      (Run.ofSource fuel clock source out).Locates moment r d levels scopes level activation) ∧
    ∃ v, lookUp r moment.machine = .ok v moment.machine := by
  have fresh := Run.fresh_ofSource fuel clock source out
  obtain ⟨levels', scopes, sound⟩ := fresh.sound reached
  obtain ⟨use, levels, reading, member, mirrored⟩ := sound.reading reads
  have resolved : resolve (Program.read source).statements =
      ((resolve (Program.read source).statements).1, []) := Prod.ext rfl clean
  obtain ⟨record, ready⟩ := resolve_records resolved _ member
  have nearest : levels.findIdx? (·.names.contains r.name.lexeme) = some d := record.symm.trans recorded
  obtain ⟨level, chosen, named⟩ := ready reading d nearest
  have contained : level.names.contains r.name.lexeme := Option.isSome_of_eq_some named
  have sited := occurrences_sited source _ member level (List.mem_of_getElem? chosen)
  obtain ⟨activation, active, _, ancestor, bound⟩ := mirrored.located chosen
  have binds := bound _ named
  have kept : moment.machine.depths[r.id]? = some d := by
    rw [reached.depths]
    exact recorded
  exact ⟨⟨levels, scopes, level, activation, ⟨use, member⟩, nearest, chosen, sited _ contained,
    sound.opened, mirrored.sites, active, ancestor, binds⟩, lookUp_of_binds kept ancestor binds⟩

/-- A block reads a variable of the block around it, one frame out. -/
theorem inner_block_reads_outer :
    let source := "\x7bvar a;\x7ba;\x7d\x7d"
    let run := Run.ofSource 9 (fun _ => 0) source (.ofCapacity none)
    ∃ moment r, run.Reaches moment ∧ moment.task.reads? = some r ∧
      (resolve (Program.read source).statements).1[r.id]? = some 1 ∧
      ∃ v, lookUp r moment.machine = .ok v moment.machine := by
  intro source run
  let a : Token := ⟨.identifier, "a", 1⟩
  let opening : Token := ⟨.symbol .leftBrace, "\x7b", 1⟩
  let closing : Token := ⟨.symbol .rightBrace, "\x7d", 1⟩
  let semicolon : Token := ⟨.symbol .semicolon, ";", 1⟩
  let tokens := [opening, ⟨.keyword .var_, "var", 1⟩, a, semicolon, opening, a, semicolon, closing,
    closing, ⟨.endOfFile, "", 1⟩]
  let reading : Stmt := .expression (.variable ⟨0, a⟩)
  let program : List Stmt := [.block [.var a none, .block [reading]]]
  have scanned : (scan source).1 = tokens := by decide +kernel
  have parsed : (Grammar.readProgram tokens).1 = program := rfl
  have read : (Program.read source).statements = program := Program.statements_of_scan scanned parsed
  have clean : (resolve (Program.read source).statements).2 = [] := by
    rw [read]
    rfl
  have recorded : (resolve (Program.read source).statements).1[(⟨0, a⟩ : Reference).id]? = some 1 := by
    rw [read]
    rfl
  have whole : run.program = [] ++ .block [.var a none, .block [reading]] :: [] := read
  have start : run.Reaches ⟨9, .execute (.block [.var a none, .block [reading]]), run.first⟩ :=
    .start (.statement whole rfl)
  have inner : run.Reaches ⟨8, .executeAll [.var a none, .block [reading]], blockEntered run.first⟩ :=
    .enter start .block
  have declared : execute 7 (.var a none) (blockEntered run.first) = .ok .normal _ := rfl
  have reached := ((((inner.enter (.laterStatements declared)).enter .firstStatement).enter .block).enter
    .firstStatement).enter .expression
  exact ⟨_, _, reached, rfl, recorded, (located_reading_succeeds clean reached rfl recorded).2⟩

end LoxLang.Eval
