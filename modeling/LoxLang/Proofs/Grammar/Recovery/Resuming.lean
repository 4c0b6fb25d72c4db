import LoxLang.Proofs.Grammar.Join
import LoxLang.Proofs.Grammar.Recovery.Cutting

/-! Where reading goes on after a statement that lacks its semicolon. The fault is found at the token
that follows it. This token is skipped, even a word that begins a statement, and what is read next is
what is behind the following boundary. -/
namespace LoxLang.Grammar
open Cursor

section Single

variable {n : Nat} {c after : Cursor} {s : Option Stmt}

theorem recovering_some {rule : Rule Stmt} {c' : Cursor} (same : c'.reported = c.reported)
    (onward : ∀ failure last, rule c' = .error failure last → Onward c' last)
    (ended : recovering rule c' = .ok s after) (clean : after.reported = c.reported) : s.isSome := by
  cases given : rule c' with
  | ok s last =>
    rw [recovering_of_ok given] at ended
    cases ended
    rfl
  | error failure last =>
    cases failure with
    | exhausted =>
      rw [recovering_of_exhausted given] at ended
      cases ended
    | rejected e =>
      rw [recovering_of_rejected given] at ended
      cases ended
      have longer := (onward _ _ given).faults_le
      have more := (noted_onward last e).2
      simp only [faults, clean, same] at longer more
      omega

/-- A declaration that is read without a report gives a statement. -/
theorem declaration_some (ended : declaration n c = .ok s after) (clean : after.reported = c.reported) :
    s.isSome := by
  cases n with
  | zero => cases ended
  | succ n =>
    have all := statementsExtend [] c.stop (Nat.le_refl n)
    rw [declaration_chosen] at ended
    split at ended
    · exact recovering_some rfl (fun _ _ => (all.classDeclaration _).error_of) ended clean
    · exact recovering_some rfl (fun _ _ => (((all.routine _).map Stmt.function) _).error_of) ended clean
    · exact recovering_some rfl (fun _ _ => varDeclaration_onward) ended clean
    · exact recovering_some rfl (fun _ _ => statement_onward) ended clean

variable {own : List Token} {last : Token}

/-- A single declaration is read as a single statement. -/
theorem readProgram_single (marker : last.kind = .endOfFile) (single : ∀ t ∈ own, t.kind ≠ .endOfFile)
    (d : Derives .declaration (own.map (·.kind)) []) : ∃ s, (readProgram (own ++ [last])).1 = [s] := by
  have start := start_concat marker single
  have here : At (own.map (·.kind) ++ [.endOfFile]) [] (.start (own ++ [last])) :=
    ⟨kinds_concat marker single, rfl, start_closed _⟩
  have left : (Cursor.start (own ++ [last])).ahead ≠ [] := by
    rw [start]
    rintro rfl
    cases d.opens
  obtain ⟨after, read, _, _⟩ := readProgram_gives (own ++ [last])
  obtain ⟨n, enough⟩ : ∃ n, budget (own ++ [last]) = n + 1 := ⟨_, rfl⟩
  rw [enough, program_of_left left] at read
  obtain ⟨first, middle, given, read⟩ := bind_eq_ok read
  have accepts : Accepts declaration _ [.endOfFile] := (d.append [.endOfFile]).recognized nofun
  obtain ⟨there, _⟩ := (accepts here).ok_of given
  obtain ⟨s, rfl⟩ := Option.isSome_iff_exists.mp (declaration_some given there.reported)
  cases n with
  | zero => cases given
  | succ n =>
    rw [bind_of_ok (program_of_empty (List.isEmpty_iff.mp there.isEmpty))] at read
    injection read with same _
    exact ⟨s, same.symm⟩

end Single

section Broken

variable {broken others : List Token} {found last : Token}

/-- Behind a statement that breaks off the program goes on with what the tokens at which reading resumes
are as a program of their own. -/
theorem broken_program (ids : NodeId) (marker : last.kind = .endOfFile)
    (single : ∀ t ∈ broken ++ found :: others, t.kind ≠ .endOfFile)
    (missing : found.kind ≠ .symbol .semicolon)
    (lacks : Lacks found.kind .declaration (broken.map (·.kind))) :
    ∃ cause ids' after, after.reported =
        ⟨cause, found⟩ :: (readProgram (fromBoundary found others ++ [last])).2 ∧
      ∀ k, budget (broken ++ found :: others ++ [last]) ≤ k →
        program k ⟨broken ++ found :: others, last, ids, []⟩ =
          .ok (Relabeling.stmts ⟨id, ids'⟩ (readProgram (fromBoundary found others ++ [last])).1)
            after := by
  let c : Cursor := ⟨broken ++ found :: others, last, ids, []⟩
  have here : At (broken.map (·.kind) ++ ((found :: others).map (·.kind) ++ [.endOfFile])) [] c :=
    ⟨by simp [c, Cursor.kinds], rfl, marker⟩
  have left : c.ahead ≠ [] := by simp [c]
  -- a budget that is enough for one declaration; any larger one reads the same
  let n := 32 * c.size + 20
  have reads := (statementsRead n).declaration here.closed left (Nat.le_refl n)
  have recovers := lacks.recovered (n := n) missing rfl here
  cases ended : declaration n c with
  | error failure after => exact absurd (recovers.error_of ended) (reads.error_of ended).2
  | ok s after =>
  obtain ⟨rfl, broken, cause, there, onward, rfl⟩ := recovers.ok_of ended
  have ahead := there.behind_all onward rfl
  have apart : ∀ t ∈ fromBoundary found others, t.kind ≠ .endOfFile := by
    intro t member
    have inside := (fromBoundary_suffix found others).subset member
    exact single t (by simp [inside])
  obtain ⟨final, read, reported, _⟩ := readProgram_gives (fromBoundary found others ++ [last])
  rw [start_concat marker apart] at read
  let σ : Relabeling := ⟨id, broken.nextId⟩
  have recovered : (broken.noted ⟨cause, broken.next⟩).recover =
      (σ.cursor ⟨fromBoundary found others, last, 0, []⟩).behind [⟨cause, found⟩] := by
    have next : broken.next = found := by rw [Cursor.next, ahead, List.headD_cons]
    simp only [noted, Cursor.recover, Relabeling.cursor, Cursor.behind, σ, ahead, next,
      onward.stop, there.reported, Relabeling.tokens_same, Nat.zero_add, List.nil_append]
    rfl
  refine ⟨cause, broken.nextId, (σ.cursor final).behind [⟨cause, found⟩], ?_, fun k enough => ?_⟩
  · rw [Cursor.behind, Relabeling.cursor, reported, Relabeling.faults_same]
    rfl
  · have shorter := (fromBoundary_suffix found others).length_le
    simp only [budget, List.length_append, List.length_cons, List.length_nil] at enough
    obtain ⟨k, rfl⟩ := Nat.exists_eq_add_of_le' (show 1 ≤ k by omega)
    have more : n ≤ k := by
      simp only [n, c, Cursor.size, List.length_append, List.length_cons]
      omega
    have rest : budget (fromBoundary found others ++ [last]) ≤ k := by
      simp only [budget, List.length_append, List.length_singleton]
      omega
    -- the declaration is read again with the larger budget, and the rest as a program behind a fault
    have again := ((Relabeling.statementsRelabel ⟨id, 0⟩ ⟨more, False.elim⟩).declaration [] c).ok_of ended
    have relabels : σ.Relabels False σ.stmts _ _ := Relabeling.program_relabels ⟨rest, False.elim⟩
    have others := (relabels [⟨cause, found⟩] _).ok_of read
    rw [Relabeling.cursor_same, Relabeling.cursor_same] at again
    rw [← recovered] at others
    rw [program_of_left left, bind_of_ok again, Option.map_none, bind_of_ok others]
    rfl

theorem startsStatement_foreign {t : Token} (starts : startsStatement t = true) :
    Foreign t.kind ∧ t.kind ≠ .symbol .equal ∧ t.kind ≠ .symbol .semicolon := by
  unfold startsStatement at starts
  split at starts
  iterate 8
    next word => exact word ▸ ⟨⟨rfl, rfl⟩, nofun, nofun⟩
  cases starts

/-- A program that ends in a semicolon is a program and one more statement, which lacks it without. -/
theorem clean_splits {front : List Token} {semi : Token} {kind : Token.Kind} (foreign : Foreign kind)
    (other : kind ≠ .symbol .equal) (marker : last.kind = .endOfFile)
    (single : ∀ t ∈ front ++ [semi], t.kind ≠ .endOfFile) (ends : semi.kind = .symbol .semicolon)
    (clean : (readProgram (front ++ [semi] ++ [last])).2 = []) :
    ∃ own broken s, front = own ++ broken ∧ (readProgram (own ++ [last])).2 = [] ∧
      Lacks kind .declaration (broken.map (·.kind)) ∧
      (readProgram (front ++ [semi] ++ [last])).1 = (readProgram (own ++ [last])).1 ++ [s] := by
  have derived := readProgram_sound clean
  rw [kinds_concat marker single, List.map_append, List.map_singleton, ends, List.append_assoc] at derived
  cases derived with
  | program body =>
  obtain ⟨own, broken, split, first, last_one, lacks⟩ :=
    body.last_cut foreign other (List.suffix_append _ _)
  have fronts := List.append_cancel_right (split.trans (List.append_assoc own broken _).symm)
  obtain ⟨own, broken, rfl, rfl, rfl⟩ := List.map_eq_append_iff.mp fronts
  rw [List.append_assoc] at single
  have apart : ∀ t ∈ own, t.kind ≠ .endOfFile := fun t inside => single t (List.mem_append_left _ inside)
  have apart' : ∀ t ∈ broken ++ [semi], t.kind ≠ .endOfFile :=
    fun t inside => single t (List.mem_append_right _ inside)
  have last_alone : Derives .declaration ((broken ++ [semi]).map (·.kind)) [] := by
    rw [List.map_append, List.map_singleton, ends]
    obtain ⟨alone, same, d⟩ := last_one.alone
    rw [← List.append_cancel_right (same.symm.trans (List.append_assoc _ [_] [_]).symm)]
    exact d
  have clean_own := readProgram_of_derives marker apart first
  have clean_last := readProgram_of_derives marker apart' (.more last_alone .done)
  obtain ⟨ids, joined⟩ := readProgram_join marker marker apart apart' clean_own clean_last id
  obtain ⟨s, statement⟩ := readProgram_single marker apart' last_alone
  refine ⟨own, broken, Relabeling.stmt ⟨id, ids⟩ s, rfl, clean_own, lacks, ?_⟩
  have same : own ++ broken ++ [semi] ++ [last] =
      own ++ (broken ++ [semi] ++ [last]).map (Token.relined id) := by
    rw [show (broken ++ [semi] ++ [last]).map (Token.relined id) = _ from Relabeling.tokens_same 0 _]
    simp only [List.append_assoc]
  rw [same, joined, statement]
  rfl

/-- A statement that breaks off behind a program is left out, and its fault is the first. -/
theorem readProgram_broken {own : List Token} (marker : last.kind = .endOfFile)
    (single : ∀ t ∈ own ++ (broken ++ found :: others), t.kind ≠ .endOfFile)
    (missing : found.kind ≠ .symbol .semicolon) (clean : (readProgram (own ++ [last])).2 = [])
    (lacks : Lacks found.kind .declaration (broken.map (·.kind))) :
    ∃ cause ids, readProgram (own ++ (broken ++ found :: others) ++ [last]) =
      ((readProgram (own ++ [last])).1 ++
          Relabeling.stmts ⟨id, ids⟩ (readProgram (fromBoundary found others ++ [last])).1,
        ⟨cause, found⟩ :: (readProgram (fromBoundary found others ++ [last])).2) := by
  have apart : ∀ t ∈ own, t.kind ≠ .endOfFile := fun t inside => single t (List.mem_append_left _ inside)
  have apart' : ∀ t ∈ broken ++ found :: others, t.kind ≠ .endOfFile :=
    fun t inside => single t (List.mem_append_right _ inside)
  obtain ⟨after, read, reported, ahead⟩ := program_of_clean clean
  obtain ⟨cause, ids, final, faults, others_read⟩ :=
    broken_program after.nextId marker apart' missing lacks
  have start : (Cursor.start (own ++ [last])).extended (broken ++ found :: others) last =
      .start (own ++ (broken ++ found :: others) ++ [last]) := by
    rw [start_concat marker apart, start_concat marker single]
    rfl
  have behind : after.extended (broken ++ found :: others) last =
      ⟨broken ++ found :: others, last, after.nextId, []⟩ := by
    rw [Cursor.extended, ahead, reported]
    rfl
  have joint : NoElse (broken ++ found :: others) := by
    rw [NoElse, ← List.head?_map, List.map_append]
    exact (lacks.opens.append _).head_ne rfl
  rw [← behind] at others_read
  have enough : budget (own ++ [last]) ≤ budget (own ++ (broken ++ found :: others) ++ [last]) := by
    simp only [budget, List.length_append, List.length_singleton]
    omega
  have left : budget (broken ++ found :: others ++ [last]) + (Cursor.start (own ++ [last])).size ≤
      budget (own ++ (broken ++ found :: others) ++ [last]) := by
    rw [start_concat marker apart]
    simp only [budget, Cursor.size, List.length_append, List.length_singleton]
    omega
  have whole := program_extends (start_closed _) read reported joint others_read enough left
  rw [start] at whole
  exact ⟨cause, ids, (readProgram_of_ok whole).trans (Prod.ext rfl faults)⟩

/-- Where a program ends in a semicolon and a word that begins a statement stands in its place, the last
statement is left out. The fault is found at the word, and reading resumes behind the first boundary
after the word: what is behind it is read as it is alone. -/
theorem missing_semicolon_resumes {front : List Token} {semi word : Token} (marker : last.kind = .endOfFile)
    (single : ∀ t ∈ front ++ word :: others, t.kind ≠ .endOfFile)
    (ends : semi.kind = .symbol .semicolon) (starts : startsStatement word = true)
    (clean : (readProgram (front ++ [semi] ++ [last])).2 = []) :
    ∃ kept s cause ids, (readProgram (front ++ [semi] ++ [last])).1 = kept ++ [s] ∧
      readProgram (front ++ word :: others ++ [last]) =
        (kept ++ Relabeling.stmts ⟨id, ids⟩ (readProgram (fromBoundary word others ++ [last])).1,
          ⟨cause, word⟩ :: (readProgram (fromBoundary word others ++ [last])).2) := by
  obtain ⟨foreign, other, missing⟩ := startsStatement_foreign starts
  have single' : ∀ t ∈ front ++ [semi], t.kind ≠ .endOfFile := by
    intro t member
    rcases List.mem_append.mp member with inside | inside
    · exact single t (List.mem_append_left _ inside)
    · rw [List.mem_singleton.mp inside, ends]
      nofun
  obtain ⟨own, broken, s, rfl, clean_own, lacks, statements⟩ :=
    clean_splits foreign other marker single' ends clean
  rw [List.append_assoc] at single
  obtain ⟨cause, ids, read⟩ := readProgram_broken marker single missing clean_own lacks
  exact ⟨(readProgram (own ++ [last])).1, s, cause, ids, statements, by rw [List.append_assoc own, read]⟩

/-- Of two statements behind the missing semicolon the first is skipped and the second is read. -/
theorem second_statement_resumed :
    let front : List Token := [⟨.keyword .print_, "print", 1⟩, ⟨.keyword .nil_, "nil", 1⟩]
    let semi : Token := ⟨.symbol .semicolon, ";", 1⟩
    let word : Token := ⟨.keyword .print_, "print", 1⟩
    let others : List Token := [⟨.keyword .true_, "true", 1⟩, semi, word, ⟨.keyword .nil_, "nil", 1⟩, semi]
    (readProgram (front ++ [semi] ++ [.endOfFile 1])).2 = [] ∧
      ∃ kept s cause ids, (readProgram (front ++ [semi] ++ [.endOfFile 1])).1 = kept ++ [s] ∧
        readProgram (front ++ word :: others ++ [.endOfFile 1]) =
          (kept ++ Relabeling.stmts ⟨id, ids⟩ (readProgram (front ++ [semi] ++ [.endOfFile 1])).1,
            [⟨cause, word⟩]) := by
  intro front semi word others
  have single : ∀ t ∈ front ++ word :: others, t.kind ≠ .endOfFile := by
    simp [front, semi, word, others]
  have clean : (readProgram (front ++ [semi] ++ [.endOfFile 1])).2 = [] := by rfl
  refine ⟨clean, ?_⟩
  obtain ⟨kept, s, cause, ids, statements, read⟩ :=
    missing_semicolon_resumes rfl single rfl rfl clean
  exact ⟨kept, s, cause, ids, statements, read⟩

/-- A statement that follows a missing semicolon is skipped with the word at which the fault is found. -/
theorem statement_behind_fault_skipped :
    ¬ ∀ (front others : List Token) (semi word last : Token), semi.kind = .symbol .semicolon →
      startsStatement word = true → last.kind = .endOfFile →
      (readProgram (front ++ [semi] ++ [last])).2 = [] →
      (readProgram (word :: others ++ [last])).2 = [] →
      ∃ kept ids, (readProgram (front ++ word :: others ++ [last])).1 =
        kept ++ Relabeling.stmts ⟨id, ids⟩ (readProgram (word :: others ++ [last])).1 := by
  intro resumed
  let front : List Token := [⟨.keyword .print_, "print", 1⟩, ⟨.keyword .nil_, "nil", 1⟩]
  let semi : Token := ⟨.symbol .semicolon, ";", 1⟩
  let word : Token := ⟨.keyword .print_, "print", 1⟩
  let others : List Token := [⟨.keyword .true_, "true", 1⟩, semi]
  obtain ⟨kept, ids, same⟩ := resumed front others semi word (.endOfFile 1) rfl rfl rfl (by rfl) (by rfl)
  have lost : (readProgram (front ++ word :: others ++ [.endOfFile 1])).1 = [] := by rfl
  have alone : (readProgram (word :: others ++ [.endOfFile 1])).1 = [.print (.literal (.boolean true))] := by
    rfl
  rw [lost, alone] at same
  exact absurd same (by simp [Relabeling.stmts])

end Broken

end LoxLang.Grammar
