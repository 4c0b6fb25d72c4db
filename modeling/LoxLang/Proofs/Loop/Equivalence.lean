import LoxLang.Proofs.Loop.Matching
import LoxLang.Proofs.Loop.Reflection
import LoxLang.Proofs.Loop.Resolved
import LoxLang.Proofs.Renaming.Invariance

/-! `for` loops run as they are written. In a program that is resolved without a fault, executing the tree
of a loop does what the loop itself does, wherever a run comes to it: the initializer once in a new scope,
then the condition, the body and the increment in turn, all in the one frame of that scope. -/
namespace LoxLang

namespace Eval

variable {α : Type}

/-- Whatever one of the parts does without running out of fuel, the other one does with some fuel, up to
what is said of their ends. -/
structure Agree (part part' : Nat → Eval α) (m m' : Machine) (ok : α → Machine → α → Machine → Prop)
    (failed : Interruption → Machine → Interruption → Machine → Prop) : Prop where
  forth : ∀ n, (∀ after, part n m ≠ .error .exhausted after) →
    ∃ n', Pairs (part n) (part' n') m m' ok failed
  back : ∀ n', (∀ after, part' n' m' ≠ .error .exhausted after) →
    ∃ n, Pairs (part n) (part' n') m m' ok failed

theorem Continued.same {part part' : Eval α} (continued : Continued part part') {m : Machine}
    (enough : ∀ after, part m ≠ .error .exhausted after) : part' m = part m := by
  have onward := continued m
  unfold Ends at onward
  split at onward
  · next ended => rw [onward, ended]
  · next ended =>
    rcases onward with rfl | same
    · exact absurd ended (enough _)
    · rw [same, ended]

end Eval

namespace Comparison

variable {ρ : Comparison} {w : Layout} {s : Store}

/-- Beside the machine that the first run leaves, the second one leaves one that has printed the same, has
values that are alike in all frames that were there in this store and in all objects, and goes on alike. -/
structure SameEffect (ρ : Comparison) (s : Store) (w : Layout) (after after' : Machine) : Prop where
  own : Layout.itself s <+: w
  output : after'.output = after.output
  frames : ∀ frame : FrameId, frame.index < s.frames.size → ∀ name, name ≠ ρ.new →
    Option.Rel (ρ.ValueAlike w) (after.store.read? frame name) (after'.store.read? frame name)
  objects : ∀ (i : Instance) name,
    Option.Rel (ρ.ValueAlike w) (after.store.field? i name) (after'.store.field? i name)
  onward : ∃ marks, ρ.MachinesAlike w marks after after'

theorem MachinesAlike.sameEffect {marks : List Bool} {after after' : Machine}
    (machines : ρ.MachinesAlike w marks after after') (own : Layout.itself s <+: w) :
    ρ.SameEffect s w after after' where
  own
  output := machines.output
  frames frame there name fresh := by
    have twins : w.Twins false frame frame := ⟨_, _, Layout.kept own (Layout.itself_there there)⟩
    have alike := machines.store.bindings frame frame false twins name fresh
    rwa [Renaming.name_false] at alike
  objects i name := machines.store.fields i i rfl name
  onward := ⟨marks, machines⟩

/-- The statements complete alike, and have had the same effect. -/
def SameCompletion (ρ : Comparison) (s : Store) (c : Completion) (after : Machine) (c' : Completion)
    (after' : Machine) : Prop :=
  ∃ w, ρ.CompletionAlike w c c' ∧ ρ.SameEffect s w after after'

/-- They are interrupted by the same error, and have had the same effect. -/
def SameInterruption (ρ : Comparison) (s : Store) (e : Interruption) (after : Machine) (e' : Interruption)
    (after' : Machine) : Prop :=
  e' = e ∧ ∃ w, ρ.SameEffect s w after after'

end Comparison

namespace ForLoop
open Comparison Eval Grammar Scope

variable {ρ : Comparison} {above : Nat} {marks : List Bool} {levels levels' : List Level}
  {found found' : List Occurrence}

/-- What is repeated is alike to itself without the scopes of its rounds. -/
theorem repeats_alike (l : ForLoop) (thinning : ρ.Thinning ⟨id, above⟩ found found')
    (thinned : Thinned marks levels levels')
    (fit : stmtOccurrences levels (.while_ (l.condition.getD (.literal (.boolean true)))
      (loopBody l.body l.increment)) ⊆ found)
    (fit' : l.repeatedOccurrences levels' ⊆ found')
    (held : stmtNames ρ.Free ρ.FreeReference ρ.FreeReference
      (.while_ (l.condition.getD (.literal (.boolean true))) (loopBody l.body l.increment))) :
    RepeatsAlike ρ marks l (l.apart above) := by
  obtain ⟨test, repeated⟩ := List.append_subset.mp fit
  obtain ⟨test', parts'⟩ := List.append_subset.mp fit'
  obtain ⟨body', increment'⟩ := List.append_subset.mp parts'
  obtain ⟨testHeld, repeatedHeld, _⟩ := held
  have condition : ρ.Alike marks (.clause l.condition) (.clause (l.apart above).condition) := by
    apply thinning.clause thinned l.condition _ test'
    · cases present : l.condition with
      | none => trivial
      | some e =>
        rw [present] at testHeld
        exact testHeld
    · cases present : l.condition with
      | none => exact List.nil_subset _
      | some e =>
        rw [present] at test
        exact test
  cases present : l.increment with
  | none =>
    have scope : l.roundMarks marks = marks := by simp [roundMarks, present]
    rw [present] at repeated repeatedHeld increment'
    refine ⟨condition, ?_, ?_⟩
    · rw [scope]
      exact thinning.stmt _ _ _ l.body thinned (.inl l.plain) repeated body' repeatedHeld
    · have absent : (l.apart above).increment = none := congrArg (Option.map _) present
      rw [present, absent]
      exact .noClause
  | some e =>
    have scope : l.roundMarks marks = true :: marks := by simp [roundMarks, present]
    rw [present] at repeated repeatedHeld increment'
    obtain ⟨body, increment⟩ := List.append_subset.mp repeated
    rw [behind_plain l.plain] at increment
    obtain ⟨step, _⟩ := List.append_subset.mp increment
    have inside : Thinned (true :: marks) (⟨.block [l.body, .expression e], []⟩ :: levels) levels' :=
      thinned.dropped
    refine ⟨condition, ?_, ?_⟩
    · rw [scope]
      exact thinning.stmt _ _ _ l.body inside (.inl l.plain) body body' repeatedHeld.1
    · have there : (l.apart above).increment = some _ := congrArg (Option.map _) present
      rw [scope, present, there]
      exact .someClause (thinning.expr inside e step increment' repeatedHeld.2.1)

/-- The loop with identities of its own is alike to what its tree has without the scopes of the rounds. -/
theorem parts_alike (l : ForLoop) (thinning : ρ.Thinning ⟨id, above⟩ found found')
    (thinned : Thinned marks levels levels') (fit : stmtOccurrences levels l.tree ⊆ found)
    (fit' : l.occurrences levels' ⊆ found')
    (held : stmtNames ρ.Free ρ.FreeReference ρ.FreeReference l.tree) :
    PartsAlike ρ marks l (l.apart above) := by
  unfold tree forLoop at fit held
  unfold occurrences at fit'
  cases present : l.initializer with
  | none =>
    rw [present] at fit held fit'
    exact .bare present (congrArg (Option.map _) present) (l.repeats_alike thinning thinned fit fit' held)
  | some first =>
    rw [present] at fit held fit'
    obtain ⟨start, onward⟩ := List.append_subset.mp fit
    obtain ⟨start', onward'⟩ := List.append_subset.mp fit'
    obtain ⟨repeated, _⟩ := List.append_subset.mp onward
    have inside {site site' : Site} : Thinned (false :: marks) (⟨site, []⟩ :: levels)
      (⟨site', []⟩ :: levels') := .kept rfl thinned
    exact .opening present (congrArg (Option.map _) present)
      (thinning.stmt _ _ _ first inside (.inr rfl) start start' held.1)
      (l.repeats_alike thinning (inside.behind (.inr rfl)) repeated onward' held.2.1)

/-- Where the loop with its rounds spaced out does the same as another loop, so does the tree. -/
theorem agree_of_spaced {l l' : ForLoop} {m m' : Machine} {ok failed}
    (pairs : ∀ n, Pairs (l.spaced n) (l'.direct n) m m' ok failed)
    (same : ∀ e after e' after', failed e after e' after' → e' = e) :
    Agree (fun n => execute n l.tree) l'.direct m m' ok failed where
  forth n enough := by
    have spaced := (l.spaced_of_tree (Nat.le_refl _)).same enough
    refine ⟨n + 8, ?_⟩
    have both := pairs (n + 8)
    unfold Pairs at both ⊢
    rwa [spaced] at both
  back n enough := by
    have running : ∀ after, l.spaced n m ≠ .error .exhausted after := by
      intro after ended
      rcases (pairs n).ends with ⟨_, _, _, _, given, _⟩ | ⟨e, _, e', after', given, given', failed⟩
      · cases ended.symm.trans given
      · cases ended.symm.trans given
        obtain rfl := same _ _ _ _ failed
        exact enough after' given'
    have tree := (l.tree_of_spaced (Nat.le_refl _)).same running
    refine ⟨2 * n + 8, ?_⟩
    have both := pairs n
    unfold Pairs at both ⊢
    rwa [tree]

section Program

variable {source : String} {depths depths' : Depths}

/-- The tree of a loop beside the loop itself: nothing gets another name or another line, and the scopes
of the rounds are missing in the second run. -/
def comparison (depths depths' : Depths) : Comparison := ⟨⟨depths, "", ""⟩, depths', Eq, true⟩

theorem comparison_unreserved : (comparison depths depths').Unreserved :=
  unreserved_of_empty rfl rfl

/-- No name of a program is empty. -/
theorem names_free (source : String) :
    stmtsNames (comparison depths depths').Free (comparison depths depths').FreeReference
      (comparison depths depths').FreeReference (Program.read source).statements := by
  have free (t : Token) (name : IsName (scan source).1 t) : t.lexeme ≠ "" :=
    scan_name_ne_empty name.member name.kind
  obtain ⟨high, built⟩ := readProgram_built (scan source).1
  refine built.names free (fun r => free r.name) fun r word => ?_
  have fitting := scan_fitting source r.name word.member
  rcases word.kind with kind | kind <;>
  · change r.name.lexeme ≠ ""
    rw [fitting.word kind]
    decide

theorem received {R Q : Reference → Prop} (clean : (resolve (Program.read source).statements).2 = [])
    (plain : stmtsNames Token.Unreserved R Q (Program.read source).statements) :
    ∀ o ∈ Scope.occurrences (Program.read source).statements, o.use = .super → ∀ d, o.depth? = some d →
      ∃ level, o.levels[d - 1]? = some level ∧ level.names ≠ [] := by
  rintro ⟨use, keyword, levels⟩ member rfl d nearest
  obtain ⟨spelled, e, _, _, _, _, this, super⟩ := super_in_subclass clean plain member
  have same : levels.findIdx? (·.names.contains keyword.name.lexeme) = some d := nearest
  rw [spelled, super] at same
  obtain rfl := Option.some.inj same
  obtain ⟨inside, contains, _⟩ := List.findIdx?_eq_some_iff_getElem.mp this
  refine ⟨levels[e + 1], List.getElem?_eq_getElem inside, fun none => ?_⟩
  rw [none] at contains
  cases contains

/-- The machine when the initializer is about to run. -/
def entered (l : ForLoop) (m : Machine) : Machine :=
  match l.initializer with
  | none => m
  | some _ => blockEntered m

/-- The frame of the scope that the loop opens is made in both runs, and is its own twin as well. -/
theorem itself_entered (l : ForLoop) (m : Machine) (depths' : Depths) :
    Layout.itself (l.entered m).store = .itself m.store ++ l.scope m { m with depths := depths' } := by
  unfold entered scope
  cases l.initializer with
  | none => exact (List.append_nil _).symm
  | some first => exact Layout.itself_newFrame m.store (some m.current) []

/-- The trees of a program are alike to themselves, and its references have the depths that the resolver
has recorded. -/
theorem thinning {σ : Relabeling} {found' : List Occurrence}
    (resolved : resolve (Program.read source).statements = (depths, []))
    (plain : stmtsNames Token.Unreserved (fun r => r.name.Unreserved) (fun _ => True)
      (Program.read source).statements)
    (lines : ∀ line, σ.line line = line) (located' : ∀ o ∈ found', depths'[o.id + σ.ids]? = o.depth?) :
    (comparison depths depths').Thinning σ (Scope.occurrences (Program.read source).statements) found' where
  omits := rfl
  unchanged := rfl
  lines line := (lines line).symm
  located o member := (resolve_records resolved o member).1
  located'
  received := received (congrArg Prod.snd resolved) plain

variable {fuel n : Nat} {clock : Nat → Float} {out : Sink} {l : ForLoop} {m : Machine}
  {scopes : List Activation}

/-- Inside these levels the tree of a loop does what the loop does with the depths that it has as it is
written. -/
theorem agree_of_sound (resolved : resolve (Program.read source).statements = (m.depths, []))
    (sound : (Run.ofSource fuel clock source out).SoundIn ⟨n, .execute l.tree, m⟩ levels scopes)
    (rooted : Rooted (Run.ofSource fuel clock source out).first.globals m)
    (own : l.Resolved (Program.read source).statements levels above m.depths depths') :
    Agree (fun n => execute n l.tree) (l.apart above).direct m { m with depths := depths' }
      ((comparison m.depths depths').SameCompletion (l.entered m).store)
      ((comparison m.depths depths').SameInterruption (l.entered m).store) := by
  have reflects : (comparison m.depths depths').Reflects (Run.ofSource fuel clock source out) :=
    { thinning := thinning resolved sound.plain (fun _ => rfl) fun o member =>
        (own.kept o member).trans (resolve_records resolved o member).1
      free := names_free source }
  have machines := reflects.machine sound rooted rfl
  have parts : PartsAlike (comparison m.depths depths') (levels.map fun _ => false) l (l.apart above) :=
    l.parts_alike (thinning resolved sound.plain (fun _ => rfl) own.own) (.refl levels) sound.task
      (List.Subset.refl _) (sound.opened.names (names_free source))
  apply agree_of_spaced
  · intro n
    apply (spaced_pairs rfl comparison_unreserved parts machines).mono
    · rintro c after c' after' ⟨w, grown, alike, completions⟩
      exact ⟨w, completions, alike.sameEffect (l.itself_entered m depths' ▸ grown)⟩
    · rintro e after e' after' ⟨interruptions, w, grown, alike⟩
      exact ⟨interruptions.eq rfl fun _ _ => Eq.symm, w,
        alike.sameEffect (l.itself_entered m depths' ▸ grown)⟩
  · exact fun _ _ _ _ => And.left

/-- The scope of the initializer has one frame, made once. Whatever runs in the loop, in any round and
however many blocks further in, finds it that many frames out; so does, in every later store, what is
closed over a frame there. -/
def OneFrame (l : ForLoop) (n : Nat) (m : Machine) : Prop :=
  l.initializer.isSome → ∀ start d now, Enters ⟨n, .execute l.tree, m⟩ start → Nested start d now →
    ∀ later, now.machine.store.Grown later →
      later.ancestor? d now.machine.current = some ⟨m.store.frames.size⟩

theorem one_frame (l : ForLoop) (n : Nat) (m : Machine) : l.OneFrame n m := by
  intro opening start d now enters nested later grown
  obtain ⟨first, present⟩ := Option.isSome_iff_exists.mp opening
  unfold tree forLoop at enters
  rw [present] at enters
  cases enters
  exact grown.ancestor? nested.ancestor?

/-- Where a `for` is next, what is read as a statement is the tree of the very loop whose clauses, any of which
may be absent, and whose body are read behind it. In a program that is resolved without a fault, wherever a
run comes to such a tree, executing it does what the loop itself does on the same machine, if the references of
the loop have the depths that the resolver gives them in the loop as it is written: both print the same,
complete alike or fail with the same error, and have the same effect on all frames and objects. One frame
serves all rounds of the loop, and the closures that they make. -/
theorem runs_as_written {fuel : Nat} {clock : Nat → Float} {source : String} {out : Sink}
    (clean : (resolve (Program.read source).statements).2 = []) :
    let program := (Program.read source).statements
    (∀ n c s after, c.next.kind = .keyword .for_ → (statement n c = .ok s after ↔
      ∃ k, n = k + 2 ∧ ∃ l : ForLoop, l.ReadFrom k c.stepped after ∧ s = l.tree)) ∧
    ∀ (l : ForLoop) n m, (Run.ofSource fuel clock source out).Reaches ⟨n, .execute l.tree, m⟩ →
      l.OneFrame n m ∧
      ∃ levels, stmtOccurrences levels l.tree ⊆ Scope.occurrences program ∧
        (∃ above depths', l.Resolved program levels above m.depths depths') ∧
        ∀ above depths', l.Resolved program levels above m.depths depths' →
          Agree (fun n => execute n l.tree) (l.apart above).direct m { m with depths := depths' }
            ((comparison m.depths depths').SameCompletion (l.entered m).store)
            ((comparison m.depths depths').SameInterruption (l.entered m).store) := by
  intro program
  refine ⟨fun n c s after keyword => statement_iff keyword, fun l n m reached => ⟨l.one_frame n m, ?_⟩⟩
  have fresh := Run.fresh_ofSource fuel clock source out
  obtain ⟨levels, scopes, sound⟩ := fresh.sound reached
  have depths : m.depths = (resolve program).1 := reached.depths
  have resolved : resolve program = (m.depths, []) := depths ▸ Prod.ext rfl clean
  refine ⟨levels, sound.task, ?_, fun above depths' own => ?_⟩
  · obtain ⟨above, built⟩ := readProgram_built (scan source).1
    have inside := (numbered_of_built built []).inside
    obtain ⟨depths', own⟩ := l.exists_resolved levels m.depths sound.opened.references_nodup
      fun o member => (inside o member).2
    exact ⟨above, depths', own⟩
  · exact agree_of_sound resolved sound (reached.rooted ⟨rfl, fresh.there, rfl⟩) own

/-- A loop with all of its clauses, which goes around once. -/
theorem full_loop_runs_as_written :
    let source := "for (var a = true; a; a = false) print a;"
    let program := (Program.read source).statements
    let run := Run.ofSource 12 (fun _ => 0) source (.ofCapacity none)
    let start := Cursor.start (scan source).1
    ∃ (l : ForLoop) (n : Nat) (m : Machine),
      (∃ k after, l.ReadFrom k start.stepped after ∧ statement (k + 2) start = .ok l.tree after) ∧
      run.Reaches ⟨n, .execute l.tree, m⟩ ∧
      (l.initializer.isSome ∧ l.condition.isSome ∧ l.increment.isSome) ∧ l.OneFrame n m ∧
      ∃ levels above depths', stmtOccurrences levels l.tree ⊆ Scope.occurrences program ∧
        l.Resolved program levels above m.depths depths' ∧
        ∃ n' c after', (l.apart above).direct n' { m with depths := depths' } = .ok c after' ∧
          after'.output.written = "true\n".toUTF8 := by
  intro source program run start
  let a : Token := ⟨.identifier, "a", 1⟩
  let semicolon : Token := ⟨.symbol .semicolon, ";", 1⟩
  let equal : Token := ⟨.symbol .equal, "=", 1⟩
  let tokens := [⟨.keyword .for_, "for", 1⟩, ⟨.symbol .leftParen, "(", 1⟩, ⟨.keyword .var_, "var", 1⟩, a,
    equal, ⟨.keyword .true_, "true", 1⟩, semicolon, a, semicolon, a, equal, ⟨.keyword .false_, "false", 1⟩,
    ⟨.symbol .rightParen, ")", 1⟩, ⟨.keyword .print_, "print", 1⟩, a, semicolon, ⟨.endOfFile, "", 1⟩]
  let l : ForLoop :=
    { initializer := some (.var a (some (.literal (.boolean true))))
      condition := some (.variable ⟨0, a⟩)
      increment := some (.assign ⟨2, a⟩ (.literal (.boolean false)))
      body := .print (.variable ⟨3, a⟩)
      plain := rfl }
  have scanned : (scan source).1 = tokens := by decide +kernel
  have opened : start = Cursor.start tokens := congrArg Cursor.start scanned
  have keyword : start.next.kind = .keyword .for_ := by
    rw [opened]
    rfl
  let behind (count : Nat) (nextId : NodeId) : Cursor :=
    ⟨tokens.dropLast.drop count, ⟨.endOfFile, "", 1⟩, nextId, []⟩
  have readFrom : l.ReadFrom 30 start.stepped (behind 16 4) := by
    rw [opened]
    exact @LoopRead.parts _ _ _ _ _ _ _ (behind 2 0) (behind 7 0) (behind 8 1) (behind 9 1) (behind 12 3)
      (behind 13 3) rfl (.declared rfl rfl) (.present rfl rfl) rfl (.present rfl rfl) rfl rfl
  have parsed : (Grammar.readProgram tokens).1 = [l.tree] := by cbv
  have read : (Program.read source).statements = [l.tree] := Program.statements_of_scan scanned parsed
  have clean : (resolve (Program.read source).statements).2 = [] := by
    rw [read]
    rfl
  have whole : run.program = [] ++ l.tree :: [] := read
  have reached : run.Reaches ⟨12, .execute l.tree, run.first⟩ := .start (.statement whole rfl)
  have ended : ∃ c after, execute 12 l.tree run.first = .ok c after ∧
      after.output.written = "true\n".toUTF8 := by
    have first : run.first = .start (resolve [l.tree]).1 (.ofCapacity none) fun _ => 0 := by
      rw [← read]
      rfl
    let printing : Eval ByteArray := execute 12 l.tree >>= fun _ => return (← get).output.written
    have printed : printing.run' (.start (resolve [l.tree]).1 (.ofCapacity none) fun _ => 0) =
        some "true\n".toUTF8 := by decide +kernel
    rw [← first, EStateM.run'] at printed
    cases ended : execute 12 l.tree run.first with
    | ok c after =>
      have given : printing run.first = .ok after.output.written after := bind_of_ok ended
      rw [EStateM.run, given] at printed
      exact ⟨c, after, rfl, Option.some.inj printed⟩
    | error e after =>
      have given : printing run.first = .error e after := bind_of_error ended
      rw [EStateM.run, given] at printed
      cases printed
  obtain ⟨c, after, ended, printed⟩ := ended
  obtain ⟨reads, runs⟩ := @runs_as_written 12 (fun _ => 0) source (.ofCapacity none) clean
  have tree : statement 32 start = .ok l.tree (behind 16 4) :=
    (reads 32 start l.tree (behind 16 4) keyword).mpr ⟨30, rfl, l, readFrom, rfl⟩
  obtain ⟨frame, levels, fit, ⟨above, depths', own⟩, agree⟩ := runs l 12 run.first reached
  have enough : ∀ last, execute 12 l.tree run.first ≠ .error .exhausted last := by
    intro last exhausted
    cases ended.symm.trans exhausted
  obtain ⟨n', pairs⟩ := (agree above depths' own).forth 12 enough
  rcases pairs.ends with ⟨_, _, c', after', given, given', _, _, effect⟩ | ⟨_, _, _, _, given, _⟩
  · cases ended.symm.trans given
    exact ⟨l, 12, run.first, ⟨30, _, readFrom, tree⟩, reached, ⟨rfl, rfl, rfl⟩, frame, levels, above, depths',
      fit, own, n', c', after', given', (congrArg Sink.written effect.output).trans printed⟩
  · cases ended.symm.trans given

end Program

end ForLoop
end LoxLang
