import LoxLang.Proofs.Grammar.Recovery.Crossing
import LoxLang.Proofs.Grammar.Recovery.Resuming

/-! A statement that lacks its semicolon, at any depth of blocks, functions and classes. -/
namespace LoxLang.Grammar
open Cursor

/-- The tokens of a phrase that stand before a declaration inside it. -/
inductive Inside : Phrase → List Token.Kind → Prop
  | here : Inside .declaration []
  | first {us} (d : Inside .declaration us) : Inside (.many .declaration) us
  | later {ts us} (d : Derives .declaration ts us) (others : Inside (.many .declaration) us) :
    Inside (.many .declaration) ts
  | ofStatement {us} (s : Inside .statement us) : Inside .declaration us
  | ofFunction {us} (f : Inside .function us) : Inside .declaration (.keyword .fun_ :: us)
  | ofClass {ts us} (clause : Derives (.optional .superclass) ts (.symbol .leftBrace :: us))
    (methods : Inside (.many .function) us) :
    Inside .declaration (.keyword .class_ :: .identifier :: ts)
  | firstMethod {us} (f : Inside .function us) : Inside (.many .function) us
  | laterMethod {ts us} (f : Derives .function ts us) (others : Inside (.many .function) us) :
    Inside (.many .function) ts
  | function {ts us count}
    (parameters : Derives (.optional (.parameters count)) ts (.symbol .rightParen :: us))
    (few : count ≤ 255) (block : Inside .block us) :
    Inside .function (.identifier :: .symbol .leftParen :: ts)
  | block {us} (body : Inside (.many .declaration) us) : Inside .block (.symbol .leftBrace :: us)
  | ofBlock {us} (s : Inside .block us) : Inside .statement us
  | round {ts test step us} (first : Derives .forFirst ts test)
    (condition : Derives (.optional .assignment) test (.symbol .semicolon :: step))
    (increment : Derives (.optional .assignment) step (.symbol .rightParen :: us))
    (s : Inside .statement us) : Inside .statement (.keyword .for_ :: .symbol .leftParen :: ts)
  | loop {ts us} (condition : Derives .assignment ts (.symbol .rightParen :: us))
    (s : Inside .statement us) : Inside .statement (.keyword .while_ :: .symbol .leftParen :: ts)
  | thenBranch {ts us} (condition : Derives .assignment ts (.symbol .rightParen :: us))
    (s : Inside .statement us) : Inside .statement (.keyword .if_ :: .symbol .leftParen :: ts)
  | elseBranch {ts body us} (condition : Derives .assignment ts (.symbol .rightParen :: body))
    (s : Derives .statement body (.keyword .else_ :: us)) (alternative : Inside .statement us) :
    Inside .statement (.keyword .if_ :: .symbol .leftParen :: ts)

variable {rest rest' : List Token} {ts us tail : List Token.Kind} {p : Phrase}

/-- How a phrase begins that holds a declaration, with what follows the place. -/
def InsideOpens : Phrase → List Token.Kind → Prop
  | .many p, ts => Begins p.opens ts
  | p, ts => Begins p.opens ts

theorem Inside.opens (begins : Begins opensDeclaration tail) (inside : Inside p us) :
    InsideOpens p (us ++ tail) := by
  induction inside with
  | here => exact begins
  | first d ih => exact ih
  | later d others ih => exact Begins.append d.opens tail
  | ofStatement s ih => exact Begins.mono ih opensDeclaration_of_statement
  | firstMethod f ih => exact ih
  | laterMethod f others ih => exact Begins.append f.opens tail
  | ofBlock s ih => exact ih
  | _ => rfl

variable (rest rest') in
/-- What is made of the phrases that hold a declaration. -/
def Crossed : Phrase → List Token.Kind → Prop
  | .declaration, us => Crosses rest rest' declaration us
  | .statement, us => Begins opensStatement us ∧ Crosses rest rest' statement us
  | .function, us => ∀ role, Crosses rest rest' (routine · role) us
  | .block, us => ∃ more, us = .symbol .leftBrace :: more ∧ Crosses rest rest' block more
  | .many .declaration, us =>
    Crosses rest rest' blockDeclarations us ∧ Crosses rest rest' program us
  | .many .function, us => Crosses rest rest' methods us
  | _, _ => True

/-- Two readings cross a statement if they cross its last part. -/
theorem crosses_pervade :
    Pervades (Following rest rest') fun ts => Crosses rest rest' statement ts where
  loop tested crosses := chosen_while.crosses nofun (whileStatement_crosses tested crosses)
  rounds first tested stepped crosses :=
    chosen_for.crosses nofun (forStatement_crosses first tested stepped crosses)
  thenBranch tested crosses := chosen_if.crosses nofun (ifStatement_crosses tested crosses)
  elseBranch tested thenBranch crosses :=
    chosen_if.crosses nofun (ifStatement_crosses_else tested thenBranch crosses)

section Repeating

variable (begins : ∀ {tail}, Following rest rest' tail → Begins opensDeclaration (us ++ tail))
include begins

theorem blockDeclarations_repeats : Repeats rest rest' declaration blockDeclarations us where
  zero := rfl
  succ := ⟨fun first others => first.toList ++ others, fun following here =>
    goes_on _ here ((begins following).head_ne rfl) ((begins following).head_ne rfl)⟩

theorem program_repeats : Repeats rest rest' declaration program us where
  zero := rfl
  succ := ⟨fun first others => first.toList ++ others, fun following here => by
    have left := here.isEmpty_eq_false ((begins following).head_ne rfl)
    exact program_of_left (List.isEmpty_eq_false_iff.mp left)⟩

end Repeating

theorem methods_repeats
    (begins : ∀ {tail}, Following rest rest' tail → Begins [Token.Kind.identifier].contains (us ++ tail)) :
    Repeats rest rest' (routine · .method) methods us where
  zero := rfl
  succ := ⟨fun first others => first :: others, fun following here =>
    goes_on _ here ((begins following).head_ne rfl) ((begins following).head_ne rfl)⟩

theorem Inside.crossed (hole : Crosses rest rest' declaration [])
    (begins : ∀ {tail}, Following rest rest' tail → Begins opensDeclaration tail)
    (inside : Inside p us) : Crossed rest rest' p us := by
  induction inside with
  | here => exact hole
  | first d ih =>
    have opens {tail} (following : Following rest rest' tail) := d.opens (begins following)
    refine ⟨(blockDeclarations_repeats opens).first ih fun {n _ _} alike => ?_,
      (program_repeats opens).first ih fun {n _ _} alike => ?_⟩
    · exact alike.abreast fun ids => (relabelsSame ids n).blockDeclarations
    · exact alike.abreast fun ids => Relabeling.program_relabels ⟨Nat.le_refl n, fun _ => rfl⟩
  | later d others ih =>
    have opens {tail} (_ : Following rest rest' tail) := Begins.append d.opens tail
    -- what stands before the place is read whole, whatever follows
    have accepts : AcceptsIn (Following rest rest') declaration _ _ := fun tail following =>
      (d.append tail).recognized (Begins.head_ne (others.opens (begins following)) rfl)
    have rules (n : Nat) (stop : Token) :=
      (statementsExtend [] stop (Nat.le_refl n)).declaration.extends_.inside
    exact ⟨(blockDeclarations_repeats opens).later accepts rules ih.1,
      (program_repeats opens).later accepts rules ih.2⟩
  | ofStatement s ih => exact declaration_crosses_statement ih.1 ih.2
  | ofFunction f ih => exact declaration_crosses_function (ih _)
  | ofClass clause methods ih =>
    refine declaration_crosses_class (classDeclaration_crosses ?_ ih)
    intro tail
    exact (clause.append tail).recognized
  | firstMethod f ih =>
    have opens {tail} (following : Following rest rest' tail) := f.opens (begins following)
    exact (methods_repeats opens).first (ih _) fun {n _ _} alike =>
      alike.abreast fun ids => (relabelsSame ids n).methods
  | laterMethod f others ih =>
    have opens {tail} (_ : Following rest rest' tail) := Begins.append f.opens tail
    have accepts : AcceptsIn (Following rest rest') (routine · .method) _ _ := fun tail _ =>
      (f.append tail).recognized _
    exact (methods_repeats opens).later accepts (fun n stop =>
      ((statementsExtend [] stop (Nat.le_refl n)).routine _).extends_.inside) ih
  | function list few block ih =>
    obtain ⟨more, rfl, crosses⟩ := ih
    intro role
    refine routine_crosses (fun tail _ => parameterList_accepts few ?_) crosses role
    exact recognized_parameters (list.append tail) (list.append tail).recognized
  | block body ih => exact ⟨_, rfl, block_crosses ih.1⟩
  | ofBlock s ih =>
    obtain ⟨more, rfl, crosses⟩ := ih
    exact ⟨rfl, chosen_block.crosses nofun crosses.map⟩
  | round first condition increment s ih =>
    exact ⟨rfl, crosses_pervade.rounds (fun tail _ => (first.append tail).recognized)
      (condition.maybeTested rfl (by decide)) (increment.maybeTested rfl (by decide)) ih.2⟩
  | loop condition s ih => exact ⟨rfl, crosses_pervade.loop (condition.tested (by decide)) ih.2⟩
  | thenBranch condition s ih =>
    exact ⟨rfl, crosses_pervade.thenBranch (condition.tested (by decide)) ih.2⟩
  | elseBranch condition s alternative ih =>
    exact ⟨rfl, crosses_pervade.otherwise condition s ih.2⟩

/-- A primary is an expression. -/
theorem Derives.of_primary (d : Derives .primary ts us) : Derives .assignment ts us :=
  .unassigned (.conditional (.tier (.tier (.tier (.tier (.tier (.tier (.power (.unsigned
    (.call d .done)) .absent) .done) .done) .done) .done) .done) .done) .absent)

section Broken

/-- The tokens ahead after recovery from a fault at the first of these. -/
def resumed : List Token → List Token
  | [] => []
  | t :: rest => fromBoundary t rest

theorem resumed_suffix (ts : List Token) : resumed ts <:+ ts := by
  cases ts with
  | nil => exact List.suffix_refl _
  | cons t rest => exact (fromBoundary_suffix t rest).trans (List.suffix_cons t rest)

theorem recover_eq (c : Cursor) : c.recover = { c with ahead := resumed c.ahead } := by
  obtain ⟨ahead, stop, nextId, reported⟩ := c
  cases ahead <;> rfl

variable {front broken after : List Token} {left right last : Token} {found : Token.Kind}

/-- A declaration that breaks off, and an empty block before the tokens at which reading resumes. -/
theorem Lacks.crosses (opening : left.kind = .symbol .leftBrace) (closing : right.kind = .symbol .rightBrace)
    (missing : found ≠ .symbol .semicolon)
    (head : (after.map Token.kind ++ [Token.Kind.endOfFile]).head? = some found)
    (lacks : Lacks found .declaration (broken.map (·.kind))) :
    Crosses (broken ++ after) (left :: right :: resumed after) declaration [] := by
  intro n c d beside
  have here := beside.at_left
  have here' := beside.at_right
  rw [List.nil_append, List.map_append, List.append_assoc] at here
  rw [List.nil_append, List.map_cons, List.map_cons, opening, closing] at here'
  have recovers := lacks.recovered (n := n) missing head here
  have block : Accepts declaration (.symbol .leftBrace :: .symbol .rightBrace ::
      ((resumed after).map (·.kind) ++ [.endOfFile])) ((resumed after).map (·.kind) ++ [.endOfFile]) :=
    declaration_statement rfl (statement_block (block_accepts blockDeclarations_done))
  have reaches := @block n _ _ here'
  cases ended : declaration n c with
  | error failure last =>
    obtain rfl := recovers.error_of ended
    exact .inl ⟨last, ended⟩
  | ok s after₁ =>
  cases ended' : declaration n d with
  | error failure last =>
    obtain rfl := reaches.error_of ended'
    exact .inr (.inl ⟨last, ended'⟩)
  | ok s' after₂ =>
    obtain ⟨_, middle, cause, there, onward, rfl⟩ := recovers.ok_of ended
    obtain ⟨there', _⟩ := reaches.ok_of ended'
    have onward' := ((statementsExtend [] d.stop (Nat.le_refl n)).declaration d).ok_of ended'
    obtain ⟨own, ahead, none⟩ := beside.left
    obtain ⟨own', ahead', none'⟩ := beside.right
    obtain rfl := List.map_eq_nil_iff.mp none
    obtain rfl := List.map_eq_nil_iff.mp none'
    have after_middle := there.behind_all onward ahead
    have behind_block : d.ahead = [left, right] ++ resumed after := ahead'
    have after_block := there'.behind_all onward'.1 behind_block
    refine .inr (.inr (.of_ok ended ended' ?_))
    rw [recover_eq]
    refine ⟨by rw [after_block]; exact congrArg resumed after_middle, ?_, ?_⟩
    · exact onward.stop.trans (beside.stop.trans onward'.1.stop.symm)
    · have faults := beside.faults
      simp only [Cursor.faults, noted, there.reported, there'.reported, List.length_append,
        List.length_singleton] at faults ⊢
      omega

/-- A program is read again with a larger budget. -/
theorem readProgram_more {tokens : List Token} {n : Nat} (enough : budget tokens ≤ n) :
    ∃ body last, program n (.start tokens) = .ok body last ∧ last.reported = (readProgram tokens).2 := by
  obtain ⟨last, read, reported, _⟩ := readProgram_gives tokens
  have relabels : Relabeling.Relabels ⟨id, 0⟩ False _ _ _ :=
    Relabeling.program_relabels ⟨enough, False.elim⟩
  have again := (relabels [] _).ok_of read
  rw [Relabeling.cursor_same, Relabeling.cursor_same] at again
  exact ⟨_, last, again, reported⟩

theorem single_resumed (opening : left.kind = .symbol .leftBrace)
    (closing : right.kind = .symbol .rightBrace)
    (single : ∀ t ∈ front ++ (broken ++ after), t.kind ≠ .endOfFile) :
    ∀ t ∈ front ++ (left :: right :: resumed after), t.kind ≠ .endOfFile := by
  intro t member
  rcases List.mem_append.mp member with inside | inside
  · exact single t (List.mem_append_left _ inside)
  · rcases List.mem_cons.mp inside with rfl | inside
    · rw [opening]
      nofun
    · rcases List.mem_cons.mp inside with rfl | inside
      · rw [closing]
        nofun
      · have later := (resumed_suffix after).subset inside
        exact single t (List.mem_append_right _ (List.mem_append_right _ later))

/-- A declaration that breaks off adds one fault to those that are found where an empty block stands for
it and for the tokens that are skipped. -/
theorem faults_of_broken (opening : left.kind = .symbol .leftBrace)
    (closing : right.kind = .symbol .rightBrace) (marker : last.kind = .endOfFile)
    (single : ∀ t ∈ front ++ (broken ++ after), t.kind ≠ .endOfFile)
    (inside : Inside (.many .declaration) (front.map (·.kind)))
    (missing : (after.headD last).kind ≠ .symbol .semicolon)
    (lacks : Lacks (after.headD last).kind .declaration (broken.map (·.kind))) :
    (readProgram (front ++ (broken ++ after) ++ [last])).2.length =
      (readProgram (front ++ (left :: right :: resumed after) ++ [last])).2.length + 1 := by
  have head : (after.map Token.kind ++ [Token.Kind.endOfFile]).head? = some (after.headD last).kind := by
    cases after with
    | nil => exact congrArg some marker.symm
    | cons t rest => rfl
  have begins {tail : List Token.Kind}
      (following : Following (broken ++ after) (left :: right :: resumed after) tail) :
      Begins opensDeclaration tail := by
    obtain rfl | rfl := following
    · rw [List.map_append, List.append_assoc]
      exact lacks.opens.append _
    · rw [List.map_cons, opening]
      rfl
  have crossed := inside.crossed (lacks.crosses opening closing missing head) begins
  -- the two programs differ in size, so both are read with a budget that is enough for either
  let n := budget (front ++ (broken ++ after) ++ [last]) +
    budget (front ++ (left :: right :: resumed after) ++ [last])
  obtain ⟨_, end₁, read₁, faults₁⟩ := readProgram_more (n := n) (Nat.le_add_right _ _)
  obtain ⟨_, end₂, read₂, faults₂⟩ := readProgram_more (n := n) (Nat.le_add_left _ _)
  rw [start_concat marker single] at read₁
  rw [start_concat marker (single_resumed opening closing single)] at read₂
  have beside : Beside (broken ++ after) (left :: right :: resumed after) (front.map (·.kind))
      ⟨front ++ (broken ++ after), last, 0, []⟩ ⟨front ++ (left :: right :: resumed after), last, 0, []⟩ :=
    ⟨⟨front, rfl, rfl⟩, ⟨front, rfl, rfl⟩, rfl, rfl, marker⟩
  have alike := (@crossed.2 n _ _ beside).ok_of read₁ read₂
  rw [← faults₁, ← faults₂]
  exact alike.faults

/-- Where a statement breaks off for want of its semicolon, at whatever depth, one fault is reported for
it. No other is exactly if the tokens are a program again once an empty block stands for the declaration
that breaks off and for the tokens that are skipped: the one at which the fault is found, even a brace
that closes a block around it or a word that begins a statement, and those up to the next boundary. -/
theorem missing_semicolon_single_fault_iff (opening : left.kind = .symbol .leftBrace)
    (closing : right.kind = .symbol .rightBrace) (marker : last.kind = .endOfFile)
    (single : ∀ t ∈ front ++ (broken ++ after), t.kind ≠ .endOfFile)
    (inside : Inside (.many .declaration) (front.map (·.kind)))
    (missing : (after.headD last).kind ≠ .symbol .semicolon)
    (lacks : Lacks (after.headD last).kind .declaration (broken.map (·.kind))) :
    (readProgram (front ++ (broken ++ after) ++ [last])).2.length =
        (readProgram (front ++ (left :: right :: resumed after) ++ [last])).2.length + 1 ∧
      ((readProgram (front ++ (broken ++ after) ++ [last])).2.length ≤ 1 ↔
        Derives .program ((front ++ (left :: right :: resumed after) ++ [last]).map (·.kind)) []) := by
  have faults := faults_of_broken opening closing marker single inside missing lacks
  have kinds := kinds_concat marker (single_resumed opening closing single)
  have mapped : (front ++ (left :: right :: resumed after) ++ [last]).map (·.kind) =
      (Cursor.start (front ++ (left :: right :: resumed after) ++ [last])).kinds := by
    rw [kinds, List.map_append, List.map_singleton, marker]
  rw [faults, mapped]
  refine ⟨rfl, fun few => ?_, fun derived => ?_⟩
  · exact readProgram_sound (List.eq_nil_of_length_eq_zero (by omega))
  · rw [readProgram_complete derived]
    exact Nat.le_refl 1

/-- Two statements in a block, the first without its semicolon. The second is skipped, and no other fault
is found. -/
theorem skipped_statement_in_block :
    let front : List Token := [⟨.symbol .leftBrace, "\x7b", 1⟩]
    let broken : List Token := [⟨.keyword .print_, "print", 1⟩, ⟨.keyword .nil_, "nil", 1⟩]
    let after : List Token := [⟨.keyword .print_, "print", 1⟩, ⟨.keyword .true_, "true", 1⟩,
      ⟨.symbol .semicolon, ";", 1⟩, ⟨.symbol .rightBrace, "\x7d", 1⟩]
    Inside (.many .declaration) (front.map (·.kind)) ∧
      Lacks (.keyword .print_) .declaration (broken.map (·.kind)) ∧
      (readProgram (front ++ (broken ++ after) ++ [.endOfFile 1])).2.length ≤ 1 := by
  intro front broken after
  let left : Token := ⟨.symbol .leftBrace, "\x7b", 1⟩
  let right : Token := ⟨.symbol .rightBrace, "\x7d", 1⟩
  let last : Token := .endOfFile 1
  have single : ∀ t ∈ front ++ (broken ++ after), t.kind ≠ .endOfFile := by
    simp [front, broken, after]
  have inside : Inside (.many .declaration) (front.map (·.kind)) :=
    .first (.ofStatement (.ofBlock (.block (.first .here))))
  have lacks : Lacks (after.headD last).kind .declaration (broken.map (·.kind)) :=
    .ofStatement (.print (.of_primary .nil_) (by decide))
  have opening : left.kind = .symbol .leftBrace := rfl
  have closing : right.kind = .symbol .rightBrace := rfl
  have counted := missing_semicolon_single_fault_iff opening closing rfl single inside nofun lacks
  refine ⟨inside, lacks, counted.2.mpr ?_⟩
  have blocks : Derives .program ([left, left, right, right, last].map (·.kind)) [] :=
    .program (.more (.ofStatement (.ofBlock (.block
      (.more (.ofStatement (.ofBlock (.block .done))) .done)))) .done)
  exact blocks

/-- In a block whose last statement lacks its semicolon the closing brace is skipped, so that it is
missing, too. -/
theorem last_statement_of_block_two_faults :
    ¬ ∀ (front broken after : List Token) (semi last : Token), semi.kind = .symbol .semicolon →
      last.kind = .endOfFile → Inside (.many .declaration) (front.map (·.kind)) →
      Derives .declaration ((broken ++ [semi]).map (·.kind)) [] →
      (readProgram (front ++ (broken ++ semi :: after) ++ [last])).2 = [] →
      (readProgram (front ++ (broken ++ after) ++ [last])).2.length ≤ 1 := by
  intro bounded
  let front : List Token := [⟨.symbol .leftBrace, "\x7b", 1⟩]
  let broken : List Token := [⟨.keyword .print_, "print", 1⟩, ⟨.keyword .nil_, "nil", 1⟩]
  let after : List Token := [⟨.symbol .rightBrace, "\x7d", 1⟩]
  let semi : Token := ⟨.symbol .semicolon, ";", 1⟩
  have inside : Inside (.many .declaration) (front.map (·.kind)) :=
    .first (.ofStatement (.ofBlock (.block (.first .here))))
  have whole : Derives .declaration ((broken ++ [semi]).map (·.kind)) [] :=
    .ofStatement (.ofPrint (.printStmt (.of_primary .nil_)))
  have clean : (readProgram (front ++ (broken ++ semi :: after) ++ [.endOfFile 1])).2 = [] := by rfl
  have two : (readProgram (front ++ (broken ++ after) ++ [.endOfFile 1])).2.length = 2 := by rfl
  have few := bounded front broken after semi (.endOfFile 1) rfl rfl inside whole clean
  omega

end Broken

end LoxLang.Grammar
