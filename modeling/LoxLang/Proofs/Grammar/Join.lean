import LoxLang.Proofs.Grammar.Extension.Statement
import LoxLang.Proofs.Grammar.Recognition
import LoxLang.Proofs.Grammar.Relabeling.Statement

/-! Reading the tokens of two programs one after the other. The statements of the first are read as they
are alone; those of the second are too, but for their lines and for the identities of their references,
which come after those of the first. -/
namespace LoxLang.Grammar
open Cursor

theorem readProgram_of_ok {tokens : List Token} {body : List Stmt} {after : Cursor}
    (read : program (budget tokens) (.start tokens) = .ok body after) :
    readProgram tokens = (body, after.reported) := by
  unfold readProgram
  rw [read]

/-- How a program is read that is read without a fault. -/
theorem program_of_clean {tokens : List Token} (clean : (readProgram tokens).2 = []) :
    ∃ after, program (budget tokens) (.start tokens) = .ok (readProgram tokens).1 after ∧
      after.reported = [] ∧ after.ahead = [] := by
  obtain ⟨after, read, reported, empty⟩ := readProgram_gives tokens
  exact ⟨after, read, reported.trans clean, empty⟩

/-- No program begins with an `else`. -/
theorem noElse_of_clean {tokens : List Token} (clean : (readProgram tokens).2 = []) :
    NoElse (Cursor.start tokens).ahead := by
  intro starts
  cases readProgram_sound clean with
  | program body =>
    cases ahead : (Cursor.start tokens).ahead with
    | nil =>
      rw [ahead] at starts
      cases starts
    | cons t rest =>
      have kind : t.kind = .keyword .else_ := by
        rw [ahead] at starts
        exact Option.some.inj starts
      have kinds : (Cursor.start tokens).kinds =
          .keyword .else_ :: (rest.map Token.kind ++ [.endOfFile]) := by
        rw [Cursor.kinds, ahead, List.map_cons, kind]
        rfl
      rw [kinds] at body
      rcases body.opens with same | begins
      · cases same
      · cases begins

section Join

variable {own own' : List Token} {last last' : Token}

theorem start_concat (marker : last.kind = .endOfFile) (single : ∀ t ∈ own, t.kind ≠ .endOfFile) :
    Cursor.start (own ++ [last]) = ⟨own, last, 0, []⟩ := by
  have none : own.find? (·.kind = .endOfFile) = none := by simpa using single
  have stop : (Cursor.start (own ++ [last])).stop = last := by
    simp [Cursor.start, List.find?_append, none, marker]
  calc Cursor.start (own ++ [last])
      = ⟨(Cursor.start (own ++ [last])).ahead, (Cursor.start (own ++ [last])).stop, 0, []⟩ := rfl
    _ = ⟨own, last, 0, []⟩ := by rw [start_ahead marker single, stop]

theorem kinds_concat (marker : last.kind = .endOfFile)
    (single : ∀ t ∈ own, t.kind ≠ .endOfFile) :
    (Cursor.start (own ++ [last])).kinds = own.map (·.kind) ++ [.endOfFile] := by
  rw [start_concat marker single]
  rfl

theorem readProgram_of_derives (marker : last.kind = .endOfFile)
    (single : ∀ t ∈ own, t.kind ≠ .endOfFile)
    (d : Derives (.many .declaration) (own.map (·.kind)) []) : (readProgram (own ++ [last])).2 = [] := by
  apply readProgram_complete
  rw [kinds_concat marker single]
  exact .program (d.append [.endOfFile])

/-- The tokens of two programs that are read without a fault, on any other lines for the second, are
read without a fault one after the other. -/
theorem readProgram_join (marker : last.kind = .endOfFile) (marker' : last'.kind = .endOfFile)
    (single : ∀ t ∈ own, t.kind ≠ .endOfFile) (single' : ∀ t ∈ own', t.kind ≠ .endOfFile)
    (clean : (readProgram (own ++ [last])).2 = []) (clean' : (readProgram (own' ++ [last'])).2 = [])
    (line : Nat → Nat) :
    ∃ ids, readProgram (own ++ (own' ++ [last']).map (Token.relined line)) =
      ((readProgram (own ++ [last])).1 ++ Relabeling.stmts ⟨line, ids⟩ (readProgram (own' ++ [last'])).1,
        []) := by
  obtain ⟨after, read, reported, ahead⟩ := program_of_clean clean
  obtain ⟨after', read', reported', ahead'⟩ := program_of_clean clean'
  let σ : Relabeling := ⟨line, after.nextId⟩
  -- the second program does not go on with the last statement of the first
  have joint : NoElse (own'.map σ.token) := by
    have joint' := noElse_of_clean clean'
    rw [start_concat marker' single'] at joint'
    cases own' with
    | nil => exact joint'
    | cons t rest => exact joint'
  have start : Cursor.start (own ++ (own' ++ [last']).map σ.token) =
      (Cursor.start (own ++ [last])).extended (own'.map σ.token) (σ.token last') := by
    have single'' : ∀ t ∈ own ++ own'.map σ.token, t.kind ≠ .endOfFile := by
      intro t member
      rcases List.mem_append.mp member with inside | inside
      · exact single t inside
      · obtain ⟨t', inside', rfl⟩ := List.mem_map.mp inside
        exact single' t' inside'
    have marker'' : (σ.token last').kind = .endOfFile := marker'
    rw [start_concat marker single, List.map_append, List.map_singleton, ← List.append_assoc,
      start_concat marker'' single'']
    rfl
  have size : (Cursor.start (own ++ [last])).size = own.length := by
    rw [start_concat marker single]
    rfl
  have size' : (Cursor.start (own' ++ [last'])).size = own'.length := by
    rw [start_concat marker' single']
    rfl
  have behind : after.extended (own'.map σ.token) (σ.token last') =
      σ.cursor (.start (own' ++ [last'])) := by
    rw [start_concat marker' single', Cursor.extended, ahead, reported]
    simp only [Relabeling.cursor, σ, List.nil_append, Nat.zero_add, List.map_nil]
  have others (k : Nat) (enough : budget (own' ++ [last']) ≤ k) :
      program k (after.extended (own'.map σ.token) (σ.token last')) =
        .ok (σ.stmts (readProgram (own' ++ [last'])).1) (σ.cursor after') := by
    have left : 1 + (Cursor.start (own' ++ [last'])).size ≤ k := by
      simp only [budget, List.length_append, List.length_singleton] at enough
      omega
    have again := program_of_more (start_closed _) read' reported' ahead' enough left
    rw [behind, Relabeling.program_relabeled k (.start (own' ++ [last'])), again]
    rfl
  -- the budget of the whole is enough for the first program and leaves enough for the second
  have enough : budget (own ++ [last]) ≤ budget (own ++ (own' ++ [last']).map σ.token) := by
    simp only [budget, List.length_append, List.length_map, List.length_singleton]
    omega
  have left : budget (own' ++ [last']) + (Cursor.start (own ++ [last])).size ≤
      budget (own ++ (own' ++ [last']).map σ.token) := by
    simp only [size, budget, List.length_append, List.length_map, List.length_singleton]
    omega
  have joined := program_extends (start_closed _) read reported joint others enough left
  have clean'' : (σ.cursor after').reported = [] := by
    rw [Relabeling.cursor, reported']
    rfl
  refine ⟨after.nextId, ?_⟩
  rw [← start] at joined
  exact (readProgram_of_ok joined).trans (Prod.ext rfl clean'')

end Join

end LoxLang.Grammar
