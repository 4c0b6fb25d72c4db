import LoxLang.Proofs.Evaluation.Fuel
import LoxLang.Proofs.Program.Outcome

/-! Runs with sinks that fill up.
A sink with a limit and one without a limit hold the same until the limit is reached; from then on
the limited one holds the first bytes of the other. So a limited part of a run is the unlimited one
as long as what is printed fits, and is interrupted by the first text that does not: nothing is
printed, reported or evaluated after it. -/
namespace LoxLang

namespace Sink

/-- A sink that holds the same, with a limit. -/
def limited (s : Sink) (limit : Nat) : Sink := ⟨some limit, s.written⟩

/-- The later sink has no limit, and holds what the earlier one does before anything else. -/
structure Continues (s after : Sink) : Prop where
  unlimited : after.capacity = none
  appended : ∃ more, after.written = s.written ++ more

variable {s middle after : Sink} {limit : Nat}

theorem Continues.refl (unlimited : s.capacity = none) : s.Continues s :=
  ⟨unlimited, .empty, ByteArray.append_empty.symm⟩

theorem Continues.trans (first : s.Continues middle) (second : middle.Continues after) :
    s.Continues after := by
  obtain ⟨early, appended⟩ := first.appended
  obtain ⟨late, appended'⟩ := second.appended
  exact ⟨second.unlimited, early ++ late, by rw [appended', appended, ByteArray.append_assoc]⟩

theorem Continues.size (continues : s.Continues after) : s.written.size ≤ after.written.size := by
  obtain ⟨more, appended⟩ := continues.appended
  rw [appended, ByteArray.size_append]
  exact Nat.le_add_right _ _

theorem extract_append_of_le {bytes more : ByteArray} (full : limit ≤ bytes.size) :
    (bytes ++ more).extract 0 limit = bytes.extract 0 limit := by
  rw [ByteArray.extract_append, Nat.sub_eq_zero_of_le full, Nat.zero_sub,
    ByteArray.extract_same, ByteArray.append_empty]

theorem extract_of_size_le {bytes : ByteArray} (room : bytes.size ≤ limit) :
    bytes.extract 0 limit = bytes := by
  ext1
  rw [ByteArray.data_extract]
  exact Array.extract_eq_self_of_le room

/-- A full sink misses whatever is written later. -/
theorem Continues.extract (continues : s.Continues after) (full : limit ≤ s.written.size) :
    after.written.extract 0 limit = s.written.extract 0 limit := by
  obtain ⟨more, appended⟩ := continues.appended
  rw [appended, extract_append_of_le full]

section Write
variable (unlimited : s.capacity = none) (text : String)
include unlimited

theorem write_unlimited : s.write text = (true, { s with written := s.written ++ text.toUTF8 }) := by
  unfold write
  rw [unlimited]

theorem continues_write : s.Continues (s.write text).2 := by
  rw [write_unlimited unlimited]
  exact ⟨unlimited, _, rfl⟩

theorem limited_write_of_fits (fits : (s.write text).2.written.size ≤ limit) :
    (s.limited limit).write text = (true, (s.write text).2.limited limit) := by
  rw [write_unlimited unlimited] at fits ⊢
  rw [ByteArray.size_append] at fits
  have room : text.toUTF8.size ≤ limit - s.written.size := by omega
  simp only [write, limited, room, if_true]

theorem limited_write_of_full (room : s.written.size ≤ limit)
    (full : limit < (s.write text).2.written.size) :
    (s.limited limit).write text =
      (false, ⟨some limit, (s.write text).2.written.extract 0 limit⟩) := by
  rw [write_unlimited unlimited] at full ⊢
  rw [ByteArray.size_append] at full
  have overflow : ¬ text.toUTF8.size ≤ limit - s.written.size := by omega
  rw [ByteArray.extract_append, extract_of_size_le room, Nat.zero_sub]
  simp only [write, limited, overflow, if_false]

end Write

/-- Without a limit every diagnostic is written. -/
theorem report_unlimited (unlimited : s.capacity = none) (ds : List Diagnostic) :
    (s.report ds).1 = true ∧ s.Continues (s.report ds).2 := by
  induction ds generalizing s with
  | nil => exact ⟨rfl, .refl unlimited⟩
  | cons d rest ih =>
    have continues := continues_write unlimited (d.text ++ "\n")
    have later := ih continues.unlimited
    rw [report, write_unlimited unlimited]
    rw [write_unlimited unlimited] at continues later
    exact ⟨later.1, continues.trans later.2⟩

theorem limited_report_of_fits (unlimited : s.capacity = none) {ds : List Diagnostic}
    (fits : (s.report ds).2.written.size ≤ limit) :
    (s.limited limit).report ds = (true, (s.report ds).2.limited limit) := by
  induction ds generalizing s with
  | nil => rfl
  | cons d rest ih =>
    have continues := continues_write unlimited (d.text ++ "\n")
    have written := write_unlimited unlimited (d.text ++ "\n")
    have next : s.report (d :: rest) = (s.write (d.text ++ "\n")).2.report rest := by
      rw [report, written]
    rw [next] at fits ⊢
    have first := (report_unlimited continues.unlimited rest).2.size
    rw [report, limited_write_of_fits unlimited _ (Nat.le_trans first fits)]
    exact ih continues.unlimited fits

theorem limited_report_of_full (unlimited : s.capacity = none) {ds : List Diagnostic}
    (room : s.written.size ≤ limit) (full : limit < (s.report ds).2.written.size) :
    (s.limited limit).report ds =
      (false, ⟨some limit, (s.report ds).2.written.extract 0 limit⟩) := by
  induction ds generalizing s with
  | nil => exact absurd full (Nat.not_lt.mpr room)
  | cons d rest ih =>
    have continues := continues_write unlimited (d.text ++ "\n")
    have written := write_unlimited unlimited (d.text ++ "\n")
    have next : s.report (d :: rest) = (s.write (d.text ++ "\n")).2.report rest := by
      rw [report, written]
    rw [next] at full ⊢
    by_cases first : (s.write (d.text ++ "\n")).2.written.size ≤ limit
    · rw [report, limited_write_of_fits unlimited _ first]
      exact ih continues.unlimited first full
    · have later := (report_unlimited continues.unlimited rest).2
      have first' := Nat.lt_of_not_le first
      rw [report, limited_write_of_full unlimited _ room first', later.extract (Nat.le_of_lt first')]

end Sink

/-- A machine whose output has a limit, otherwise the same. -/
def Machine.limited (m : Machine) (limit : Nat) : Machine :=
  { m with output := m.output.limited limit }

namespace Eval

variable {α β : Type} {limit : Nat}

/-- How a limited part ends, given the machine at the end of the unlimited part and how that part
ends there: in the same way if all that was printed fits, or else interrupted, with the bytes that
fit. -/
structure CutShort (limit : Nat) (m after : Machine)
    (ended : EStateM.Result Interruption Machine α)
    (uncut : Machine → EStateM.Result Interruption Machine α) : Prop where
  continues : m.output.Continues after.output
  fits : after.output.written.size ≤ limit → ended = uncut (after.limited limit)
  full : m.output.written.size ≤ limit → limit < after.output.written.size →
    ∃ last, ended = .error .sinkFull last ∧
      last.output.written = after.output.written.extract 0 limit

/-- Unless the first part runs out of fuel, the second one, with a limited output, is the first one
cut short where its output reaches the limit; if the first part fails, that is a fault. -/
def Truncated (limit : Nat) (part part' : Eval α) : Prop :=
  ∀ m, m.output.capacity = none →
    Ends part m (fun a after => CutShort limit m after (part' (m.limited limit)) (.ok a))
      fun e after => e = .exhausted ∨
        (∃ fault, e = .fault fault) ∧ CutShort limit m after (part' (m.limited limit)) (.error e)

/-- A silent part leaves the output alone. -/
theorem Silent.output {part : Eval α} (silent : Silent part) :
    Within (fun m after => after.output = m.output) part := by
  intro m
  apply Ends.of_forall
  · intro a after ended
    have same := ended.symm.trans ((silent m).ok_of ended m.output)
    injection same with _ same
    have outputs := congrArg Machine.output same
    exact outputs
  · intro e after ended
    have same := ended.symm.trans (((silent m).error_of ended).2 m.output)
    injection same with _ same
    have outputs := congrArg Machine.output same
    exact outputs

theorem CutShort.of_output {m after : Machine} {ended : EStateM.Result Interruption Machine α}
    {uncut : Machine → EStateM.Result Interruption Machine α} (unlimited : m.output.capacity = none)
    (same : after.output = m.output) (alike : ended = uncut (after.limited limit)) :
    CutShort limit m after ended uncut where
  continues := ⟨same ▸ unlimited, .empty, by rw [same, ByteArray.append_empty]⟩
  fits _ := alike
  full room overflow := absurd overflow (Nat.not_lt.mpr (same ▸ room))

theorem Truncated.silent {part : Eval α} (silent : Silent part) : Truncated limit part part := by
  intro m unlimited
  apply Ends.of_forall
  · intro a after ended
    have same : after.output = m.output := (silent.output m).ok_of ended
    apply CutShort.of_output unlimited same
    rw [Machine.limited, Machine.limited, same]
    exact (silent m).ok_of ended _
  · intro e after ended
    have same : after.output = m.output := (silent.output m).error_of ended
    refine .inr ⟨((silent m).error_of ended).1, CutShort.of_output unlimited same ?_⟩
    rw [Machine.limited, Machine.limited, same]
    exact ((silent m).error_of ended).2 _

theorem Truncated.print (v : Value) : Truncated limit (print v) (print v) := by
  intro m unlimited
  have continues := Sink.continues_write unlimited (v.display ++ "\n")
  have printed : Eval.print v m = .ok () { m with output := (m.output.write (v.display ++ "\n")).2 } := by
    unfold Eval.print
    rw [Sink.write_unlimited unlimited]
    rfl
  apply Ends.of_ok printed
  refine ⟨continues, fun fits => ?_, fun room full => ?_⟩
  · unfold Eval.print Machine.limited
    dsimp only
    rw [Sink.limited_write_of_fits unlimited _ fits]
    rfl
  · unfold Eval.print Machine.limited
    dsimp only
    rw [Sink.limited_write_of_full unlimited _ room full]
    exact ⟨_, rfl, rfl⟩

/-- A part cut short stays so whatever comes after it. -/
theorem CutShort.bind {m middle last : Machine} {part' : Eval α} {next' : α → Eval β} {a : α}
    {uncut : Machine → EStateM.Result Interruption Machine β}
    (first : CutShort limit m middle (part' (m.limited limit)) (.ok a))
    (rest : CutShort limit middle last (next' a (middle.limited limit)) uncut) :
    CutShort limit m last ((part' >>= next') (m.limited limit)) uncut where
  continues := first.continues.trans rest.continues
  fits fits := by
    rw [bind_of_ok (first.fits (Nat.le_trans rest.continues.size fits))]
    exact rest.fits fits
  full room full := by
    by_cases fits : middle.output.written.size ≤ limit
    · rw [bind_of_ok (first.fits fits)]
      exact rest.full fits full
    · have overflow := Nat.lt_of_not_le fits
      obtain ⟨stopped, ended, kept⟩ := first.full room overflow
      exact ⟨stopped, bind_of_error ended, kept.trans (rest.continues.extract (Nat.le_of_lt overflow)).symm⟩

theorem Truncated.bind {part part' : Eval α} {next next' : α → Eval β}
    (first : Truncated limit part part') (rest : ∀ a, Truncated limit (next a) (next' a)) :
    Truncated limit (part >>= next) (part' >>= next') := by
  intro m unlimited
  apply Ends.bind ((first m unlimited).mono (fun _ _ => id) fun e after => Or.imp_right ?_)
  · intro a middle _ cut
    apply (rest a middle cut.continues.unlimited).mono
    · exact fun _ _ => cut.bind
    · exact fun _ _ => Or.imp_right (And.imp_right cut.bind)
  · rintro ⟨fault, cut⟩
    refine ⟨fault, cut.continues, fun fits => bind_of_error (cut.fits fits), fun room full => ?_⟩
    obtain ⟨last, ended, kept⟩ := cut.full room full
    exact ⟨last, bind_of_error ended, kept⟩

theorem Truncated.inspect {next next' : Machine → Eval β}
    (blind : ∀ m output, next' { m with output } = next' m)
    (rest : ∀ m, Truncated limit (next m) (next' m)) :
    Truncated limit (get >>= next) (get >>= next') := by
  intro m unlimited
  have seen : (get >>= next') (m.limited limit) = next' m (m.limited limit) := by
    rw [← blind m (m.output.limited limit)]
    rfl
  rw [seen]
  exact rest m m unlimited

/-- A part cut short stays so where it is entered and left on machines with the same outputs. -/
theorem CutShort.wrapped {m inner last after : Machine}
    {ended ended' : EStateM.Result Interruption Machine α}
    {uncut uncut' : Machine → EStateM.Result Interruption Machine α}
    (cut : CutShort limit inner last ended uncut) (entered : inner.output = m.output)
    (left : after.output = last.output)
    (whole : ended = uncut (last.limited limit) → ended' = uncut' (after.limited limit))
    (stopped : ∀ full, ended = .error .sinkFull full →
      ∃ full', ended' = .error .sinkFull full' ∧ full'.output = full.output) :
    CutShort limit m after ended' uncut' where
  continues := by
    rw [left, ← entered]
    exact cut.continues
  fits fits := whole (cut.fits (left ▸ fits))
  full room overflow := by
    rw [← entered] at room
    rw [left] at overflow ⊢
    obtain ⟨full, interrupted, kept⟩ := cut.full room overflow
    obtain ⟨full', interrupted', same⟩ := stopped full interrupted
    exact ⟨full', interrupted', same ▸ kept⟩

theorem Truncated.inFrame (frame : FrameId) {part part' : Eval α} (cut : Truncated limit part part') :
    Truncated limit (inFrame frame part) (inFrame frame part') := by
  intro m unlimited
  have stopped (full : Machine) (ended : part' { m.limited limit with current := frame } =
      .error .sinkFull full) : ∃ full', Eval.inFrame frame part' (m.limited limit) =
        .error .sinkFull full' ∧ full'.output = full.output := ⟨_, inFrame_of_error ended, rfl⟩
  apply inFrame_ends
  apply (cut { m with current := frame } unlimited).mono
  · exact fun a after cut => cut.wrapped rfl rfl (inFrame_of_ok (m := m.limited limit)) stopped
  · exact fun e after => Or.imp_right (And.imp_right fun cut =>
      cut.wrapped rfl rfl (inFrame_of_error (m := m.limited limit)) stopped)

theorem Truncated.inCall {part part' : Eval α} (cut : Truncated limit part part') :
    Truncated limit (inCall part) (inCall part') := by
  intro m unlimited
  have stopped (full : Machine) (ended : part' { m.limited limit with activeCalls := m.activeCalls + 1 } =
      .error .sinkFull full) : ∃ full', Eval.inCall part' (m.limited limit) =
        .error .sinkFull full' ∧ full'.output = full.output := ⟨_, inCall_of_error ended, rfl⟩
  apply inCall_ends
  apply (cut { m with activeCalls := m.activeCalls + 1 } unlimited).mono
  · exact fun a after cut => cut.wrapped rfl rfl (inCall_of_ok (m := m.limited limit)) stopped
  · exact fun e after => Or.imp_right (And.imp_right fun cut =>
      cut.wrapped rfl rfl (inCall_of_error (m := m.limited limit)) stopped)

theorem truncated_congruence (limit : Nat) : Congruence (Truncated limit) where
  exhausted _ _ _ := .inl rfl
  silent := .silent
  print := .print
  bind := .bind
  inspect _ := .inspect
  inFrame := .inFrame
  inCall := .inCall

end Eval

/-- How a run with limits for its output and its diagnostics ends, given how it ends without. -/
structure Outcome.CutShort (free cut : Outcome) (limit limit' : Nat) : Prop where
  out : cut.out.written = free.out.written.extract 0 limit
  err : cut.err.written =
    if free.out.written.size ≤ limit then free.err.written.extract 0 limit' else .empty
  sinkFull : cut.ending = .sinkFull ↔
    limit < free.out.written.size ∨ limit' < free.err.written.size
  ending : cut.ending ≠ .sinkFull → cut.ending = free.ending

section Run
variable {out err : Sink} {limit limit' : Nat}

/-- Without a limit for the diagnostics a run ends as it would without any. -/
theorem conclude_unlimited (unlimited : err.capacity = none) (out : Sink) (ending : Ending)
    (ds : List Diagnostic) : conclude out err ending ds = ⟨ending, out, (err.report ds).2⟩ := by
  have written := (err.report_unlimited unlimited ds).1
  unfold conclude
  split
  · next ended => rw [ended]
  · next ended => rw [ended] at written; cases written

/-- Output that fits is kept whole; what becomes of diagnostics depends on their own limit. -/
theorem conclude_cutShort (unlimited : err.capacity = none) (room : err.written.size ≤ limit')
    (fits : out.written.size ≤ limit) (ending : Ending) (own : ending ≠ .sinkFull)
    (ds : List Diagnostic) :
    (conclude out err ending ds).CutShort
      (conclude (out.limited limit) (err.limited limit') ending ds) limit limit' := by
  have kept : out.written = out.written.extract 0 limit := (Sink.extract_of_size_le fits).symm
  rw [conclude_unlimited unlimited]
  by_cases whole : (err.report ds).2.written.size ≤ limit'
  · have cut : conclude (out.limited limit) (err.limited limit') ending ds =
        ⟨ending, out.limited limit, (err.report ds).2.limited limit'⟩ := by
      unfold conclude
      rw [Sink.limited_report_of_fits unlimited whole]
    rw [cut]
    refine ⟨kept, ?_, ?_, fun _ => rfl⟩
    · simp only [fits, if_true]
      exact (Sink.extract_of_size_le whole).symm
    · refine ⟨fun full => absurd full own, ?_⟩
      rintro (full | full)
      · exact absurd fits (Nat.not_le.mpr full)
      · exact absurd whole (Nat.not_le.mpr full)
  · have overflow := Nat.lt_of_not_le whole
    have cut : conclude (out.limited limit) (err.limited limit') ending ds =
        ⟨.sinkFull, out.limited limit, ⟨some limit', (err.report ds).2.written.extract 0 limit'⟩⟩ := by
      unfold conclude
      rw [Sink.limited_report_of_full unlimited room overflow]
    rw [cut]
    refine ⟨kept, ?_, ?_, fun different => absurd rfl different⟩
    · simp only [fits, if_true]
    · exact ⟨fun _ => .inr overflow, fun _ => rfl⟩

/-- A run whose output does not fit ends there, and reports nothing. -/
theorem Outcome.cutShort_of_full {free : Outcome} {last : Sink}
    (kept : last.written = free.out.written.extract 0 limit)
    (full : limit < free.out.written.size) :
    free.CutShort ⟨.sinkFull, last, .ofCapacity (some limit')⟩ limit limit' := by
  refine ⟨kept, ?_, ⟨fun _ => .inl full, fun _ => rfl⟩, fun different => absurd rfl different⟩
  rw [if_neg (Nat.not_le.mpr full)]
  rfl

theorem Program.run_limited {fuel fuel' : Nat} (more : fuel ≤ fuel') (program : Program)
    (clock : Nat → Float)
    (enough : (program.run fuel clock (.ofCapacity none) (.ofCapacity none)).ending ≠ .exhausted) :
    (program.run fuel clock (.ofCapacity none) (.ofCapacity none)).CutShort
      (program.run fuel' clock (.ofCapacity (some limit)) (.ofCapacity (some limit')))
      limit limit' := by
  have concluded (out : Sink) (fits : out.written.size ≤ limit) (ending : Ending)
      (own : ending ≠ .sinkFull) (ds : List Diagnostic) :
      (conclude out (.ofCapacity none) ending ds).CutShort
        (conclude (out.limited limit) (.ofCapacity (some limit')) ending ds) limit limit' :=
    conclude_cutShort rfl (Nat.zero_le limit') fits ending own ds
  -- nothing is printed before a run begins
  have refused (ds : List Diagnostic) := concluded (.ofCapacity none) (Nat.zero_le limit) .refused nofun ds
  unfold Program.run at enough ⊢
  split
  · exact refused _
  next clean =>
  rw [if_neg clean] at enough
  dsimp only at enough ⊢
  split
  · exact refused _
  next resolved =>
  rw [if_neg resolved] at enough
  have truncated := (Eval.truncated_congruence limit).interpret more program.statements
    (.start (Scope.resolve program.statements).1 (.ofCapacity none) clock) rfl
  have start : (Machine.start (Scope.resolve program.statements).1 (.ofCapacity none) clock).limited
      limit = .start (Scope.resolve program.statements).1 (.ofCapacity (some limit)) clock := rfl
  rw [start] at truncated
  unfold Ends at truncated
  split at truncated
  · next after ended =>
    by_cases full : limit < after.output.written.size
    · obtain ⟨last, stopped, kept⟩ := truncated.full (Nat.zero_le limit) full
      rw [ended, stopped]
      exact Outcome.cutShort_of_full kept full
    · have room := Nat.le_of_not_lt full
      rw [ended, truncated.fits room]
      exact concluded _ room .completed nofun []
  · next after ended =>
    rcases truncated with rfl | ⟨⟨fault, rfl⟩, truncated⟩
    · rw [ended] at enough
      exact absurd rfl enough
    by_cases full : limit < after.output.written.size
    · obtain ⟨last, stopped, kept⟩ := truncated.full (Nat.zero_le limit) full
      rw [ended, stopped]
      rw [← conclude_out after.output (.ofCapacity none) .stopped [.runtime fault]] at kept full
      exact Outcome.cutShort_of_full kept full
    · have room := Nat.le_of_not_lt full
      rw [ended, truncated.fits room]
      exact concluded _ room .stopped nofun _

/-- A run with sinks that fill up leaves in them the first bytes of what the same run with ample
sinks prints and, unless the output did not fit, reports. It ends with a full sink exactly when
something did not fit, and otherwise as the run with ample sinks does. -/
theorem run_cut_short {fuel fuel' : Nat} (more : fuel ≤ fuel') (clock : Nat → Float)
    (source : String) (limit limit' : Nat)
    (enough : (run fuel clock source (.ofCapacity none) (.ofCapacity none)).ending ≠ .exhausted) :
    (run fuel clock source (.ofCapacity none) (.ofCapacity none)).CutShort
      (run fuel' clock source (.ofCapacity (some limit)) (.ofCapacity (some limit'))) limit limit' :=
  Program.run_limited more _ clock enough

/-- A sink that keeps three of the four bytes that a program prints. -/
theorem nil_cut_short :
    let run := run 4 (fun _ => 0) "print nil;"
    (run (.ofCapacity none) (.ofCapacity none)).ending ≠ .exhausted ∧
      (run (.ofCapacity none) (.ofCapacity none)).CutShort
        (run (.ofCapacity (some 3)) (.ofCapacity (some 0))) 3 0 := by
  let tokens : List Token := [⟨.keyword .print_, "print", 1⟩, ⟨.keyword .nil_, "nil", 1⟩,
    ⟨.symbol .semicolon, ";", 1⟩, ⟨.endOfFile, "", 1⟩]
  have scanned : scan "print nil;" = (tokens, []) := by decide +kernel
  have parsed : Grammar.readProgram tokens = ([.print (.literal .nil)], []) := rfl
  have ended : (run 4 (fun _ => 0) "print nil;" (.ofCapacity none) (.ofCapacity none)).ending =
      .completed := by
    rw [run, Program.read_of_scan scanned parsed]
    rfl
  have enough : (run 4 (fun _ => 0) "print nil;" (.ofCapacity none) (.ofCapacity none)).ending ≠
      .exhausted := by
    rw [ended]
    decide
  exact ⟨enough, run_cut_short (Nat.le_refl 4) _ _ 3 0 enough⟩

end Run
end LoxLang
