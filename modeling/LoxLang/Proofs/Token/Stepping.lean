import LoxLang.Proofs.Token.Slicing

/-! The scan over bytes is the scan over characters. The first byte tells which lexeme begins, so call by
call the one gives what the other does; in particular it never looks where no byte is, never slices the
text inside a character, and comes to an end. -/
namespace LoxLang.Bytewise
open Text Scan

variable {text : String} {front cs : List Char} {s : Scanner} {c : Char}

/-- What is known of a character from what it begins. -/
inductive Opens (c : Char) : Opening → Prop
  | single {sym : Symbol} (spelled : sym.spelling = [c]) (unslashed : c ≠ '/')
    (alone : ∀ d, Symbol.ofSpelling? [c, d] = none) : Opens c (.single sym)
  | either {second : Char} {longer shorter : Symbol} (spelled : longer.spelling = [c, second])
    (spelled' : shorter.spelling = [c]) (unslashed : c ≠ '/')
    (alone : ∀ d, d ≠ second → Symbol.ofSpelling? [c, d] = none) : Opens c (.either second longer shorter)
  | blank (blank : isBlank c = true) (unbroken : c ≠ '\n') : Opens c .blank
  | lineFeed (broken : c = '\n') : Opens c .lineFeed
  | slash (slash : c = '/') : Opens c .slash
  | quote (quote : c = '"') : Opens c .quote
  | digit (digit : isDigit c = true) : Opens c .digit
  | letter (starts : isNameStart c = true) : Opens c .letter
  | other (undigit : isDigit c = false) (unnamed : isNameStart c = false) (unblank : isBlank c = false)
    (unslashed : c ≠ '/') (unquoted : c ≠ '"')
    (none : ∀ sym rest, Symbol.spelling sym ≠ c :: rest) : Opens c .other

theorem Opens.of_other (opening : Opening.of c = .other) (undigit : isDigit c = false)
    (unnamed : isNameStart c = false) : Opens c .other := by
  refine .other undigit unnamed ?_ ?_ ?_ ?_
  · rw [← Bool.not_eq_true]
    intro blank
    obtain rfl | rfl | rfl | rfl := isBlank_iff.mp blank
    all_goals cases opening
  · rintro rfl
    cases opening
  · rintro rfl
    cases opening
  · intro sym rest spelled
    cases sym
    all_goals
      obtain ⟨rfl, _⟩ := List.cons.inj spelled
      cases opening

theorem Opens.of_eq {o : Opening} (opening : Opening.of c = o) : Opens c o := by
  have remains := opening
  unfold Opening.of at opening
  split at opening
  iterate 12
    next =>
      subst opening
      exact .single rfl (by decide) fun d => rfl
  iterate 5
    next =>
      subst opening
      refine .either rfl rfl (by decide) fun d other => ?_
      simp [Symbol.ofSpelling?, Symbol.all, Symbol.spelling, other.symm]
  iterate 3
    next =>
      subst opening
      exact .blank rfl (by decide)
  · exact opening ▸ .lineFeed rfl
  · exact opening ▸ .slash rfl
  · exact opening ▸ .quote rfl
  · split at opening
    · next digit => exact opening ▸ .digit digit
    · next undigit =>
      split at opening
      · next starts => exact opening ▸ .letter starts
      · next unnamed =>
        subst opening
        exact .of_other remains (Bool.eq_false_iff.mpr undigit) (Bool.eq_false_iff.mpr unnamed)

/-- A character outside ASCII begins nothing. -/
theorem Opening.of_wide (wide : 128 ≤ c.toNat) : Opening.of c = .other := by
  have ascii {sym : Symbol} {rest : List Char} (spelled : sym.spelling = c :: rest) : c.toNat < 128 := by
    cases sym
    all_goals
      obtain ⟨rfl, _⟩ := List.cons.inj spelled
      decide
  generalize opening : Opening.of c = o
  cases Opens.of_eq opening with
  | single spelled => exact absurd (ascii spelled) (Nat.not_lt_of_le wide)
  | either spelled => exact absurd (ascii spelled) (Nat.not_lt_of_le wide)
  | blank blank =>
    obtain rfl | rfl | rfl | rfl := isBlank_iff.mp blank
    all_goals exact absurd wide (by decide)
  | lineFeed broken => exact absurd wide (broken ▸ by decide)
  | slash slash => exact absurd wide (slash ▸ by decide)
  | quote quote => exact absurd wide (quote ▸ by decide)
  | digit digit => exact absurd (ascii_of_kept isDigit_narrow digit) (Nat.not_lt_of_le wide)
  | letter starts => exact absurd (ascii_of_kept isNameStart_narrow starts) (Nat.not_lt_of_le wide)
  | other => rfl

/-- The first byte of a character begins what the character does. -/
theorem scanToken_eq (here : At text front (c :: cs) s) :
    scanToken text s = scanOpening text (Opening.of c) (s.skip 1) := by
  cases encoded : String.utf8EncodeChar c with
  | nil => exact absurd encoded String.utf8EncodeChar_ne_nil
  | cons b rest =>
    have first : b ∈ String.utf8EncodeChar c := encoded ▸ List.mem_cons_self
    have ahead : left text s = b :: (rest ++ bytes cs) := by
      rw [here.left, bytes_cons, encoded, List.cons_append]
    have same : Opening.of (Char.ofUInt8 b) = Opening.of c := by
      have value : (Char.ofUInt8 b).toNat = b.toNat := rfl
      obtain ⟨_, equal⟩ | ⟨wide, wide'⟩ := byte_cases first
      · rw [Char.toNat_inj.mp (value.trans equal)]
      · rw [Opening.of_wide wide, Opening.of_wide (value ▸ wide')]
    rw [scanToken, bind_of_ok (advance_eq ahead), same]

theorem ascii_of_opening (opens : Opening.of c ≠ .other) : c.toNat < 128 := by
  apply Nat.lt_of_not_le
  intro wide
  exact opens (Opening.of_wide wide)

theorem piece_of_digit (digit : isDigit c = true) : piece c cs = numberPiece c cs := by
  have unblank : isBlank c = false := by
    rw [← Bool.not_eq_true]
    intro blank
    obtain rfl | rfl | rfl | rfl := isBlank_iff.mp blank
    all_goals cases digit
  have unslashed : c ≠ '/' := by
    rintro rfl
    cases digit
  have unquoted : c ≠ '"' := by
    rintro rfl
    cases digit
  simp only [piece, unblank, unslashed, unquoted, digit, Bool.false_eq_true, false_and, if_false, if_true]

theorem piece_of_name (starts : isNameStart c = true) : piece c cs = wordPiece c cs := by
  have undigit : isDigit c = false := by
    rw [← Bool.not_eq_true]
    intro digit
    rw [isNameStart_of_isDigit digit] at starts
    cases starts
  have unblank : isBlank c = false := by
    rw [← Bool.not_eq_true]
    intro blank
    obtain rfl | rfl | rfl | rfl := isBlank_iff.mp blank
    all_goals cases starts
  have unslashed : c ≠ '/' := by
    rintro rfl
    cases starts
  have unquoted : c ≠ '"' := by
    rintro rfl
    cases starts
  simp only [piece, unblank, unslashed, unquoted, undigit, starts, Bool.false_eq_true, false_and,
    if_false, if_true]

theorem piece_of_plain (unslashed : c ≠ '/') (unblank : isBlank c = false) (unquoted : c ≠ '"')
    (undigit : isDigit c = false) (unnamed : isNameStart c = false) : piece c cs = symbolPiece c cs := by
  simp only [piece, unblank, unslashed, unquoted, undigit, unnamed, Bool.false_eq_true, false_and, if_false]

theorem piece_of_symbol {sym : Symbol} {rest : List Char} (spelled : sym.spelling = c :: rest)
    (unslashed : c ≠ '/') : piece c cs = symbolPiece c cs := by
  obtain ⟨c', rest', spelled', _, unblank, unquoted, undigit, unnamed⟩ := sym.spelling_eq
  obtain ⟨rfl, _⟩ := List.cons.inj (spelled'.symm.trans spelled)
  exact piece_of_plain unslashed unblank unquoted undigit unnamed

/-- Where no two characters spell a symbol, the first one is looked at alone. -/
theorem symbolPiece_alone (alone : ∀ d, cs.head? = some d → Symbol.ofSpelling? [c, d] = none) :
    symbolPiece c cs = singlePiece c cs := by
  cases cs with
  | nil => rfl
  | cons d rest => rw [symbolPiece, alone d rfl]

theorem singlePiece_symbol_eq {sym : Symbol} (spelled : sym.spelling = [c]) :
    singlePiece c cs = ⟨.token (.symbol sym), [c], cs⟩ := by
  unfold singlePiece
  rw [← spelled, sym.ofSpelling?_spelling]

section Parts

variable (here : At text front (c :: cs) s)
include here

theorem single_cuts (ascii : c.toNat < 128) {sym : Symbol} (spelled : sym.spelling = [c])
    (unslashed : c ≠ '/') (alone : ∀ d, cs.head? = some d → Symbol.ofSpelling? [c, d] = none) :
    Cuts (do recognize (.symbol sym); return none) text front s (s.skip 1) (piece c cs) := by
  have first : At text (front ++ [c]) cs (s.skip 1) := here.step ascii rfl
  have unbroken : c ≠ '\n' := by
    rintro rfl
    cases sym <;> cases spelled
  rw [piece_of_symbol spelled unslashed, symbolPiece_alone alone, singlePiece_symbol_eq spelled]
  exact ⟨none, _, rfl, recognized_cut _ first rfl (by rw [count_single unbroken]; rfl)⟩

theorem either_cuts (ascii : c.toNat < 128) {second : Char} {longer shorter : Symbol}
    (spelled : longer.spelling = [c, second]) (spelled' : shorter.spelling = [c]) (unslashed : c ≠ '/')
    (alone : ∀ d, d ≠ second → Symbol.ofSpelling? [c, d] = none) :
    Cuts (scanOpening text (.either second longer shorter)) text front s (s.skip 1) (piece c cs) := by
  have first : At text (front ++ [c]) cs (s.skip 1) := here.step ascii rfl
  have ascii' : second.toNat < 128 := by
    cases longer <;> cases spelled <;> decide
  have matched := first.matchByte ascii'
  by_cases follows : cs.head? = some second
  · obtain ⟨rest, rfl⟩ := List.head?_eq_some_iff.mp follows
    rw [if_pos follows] at matched
    have behind : At text (front ++ [c] ++ [second]) rest ((s.skip 1).skip 1) := first.step ascii' rfl
    rw [List.append_assoc] at behind
    have unbroken : [c, second].count '\n' = 0 := by
      cases longer <;> cases spelled <;> rfl
    have found : Symbol.ofSpelling? [c, second] = some longer := spelled ▸ longer.ofSpelling?_spelling
    rw [piece_of_symbol spelled unslashed, symbolPiece, found]
    exact ⟨none, _, bind_of_ok matched, recognized_cut _ behind rfl (by rw [unbroken]; rfl)⟩
  · rw [if_neg follows] at matched
    have others (d : Char) (ahead : cs.head? = some d) : Symbol.ofSpelling? [c, d] = none :=
      alone d fun same => follows (same ▸ ahead)
    obtain ⟨result, after, ended, cut⟩ := single_cuts here ascii spelled' unslashed others
    exact ⟨result, after, (bind_of_ok matched).trans ended, cut⟩

theorem slash_cuts (slash : c = '/') (nothing : s.pending = none) :
    Cuts (scanOpening text .slash) text front s (s.skip 1) (piece c cs) := by
  subst slash
  have first : At text (front ++ ['/']) cs (s.skip 1) := here.step (by decide) rfl
  have matched : matchByte text '/'.toUInt8 (s.skip 1) = _ := first.matchByte (by decide)
  have matched' : matchByte text '*'.toUInt8 (s.skip 1) = _ := first.matchByte (by decide)
  have unfolded : piece '/' cs = if cs.head? = some '/' then lineComment cs
      else if cs.head? = some '*' then Scan.blockComment cs.tail else symbolPiece '/' cs := by
    simp [piece, isBlank, isDigit, isNameStart]
  rw [unfolded]
  by_cases line : cs.head? = some '/'
  · obtain ⟨more, rfl⟩ := List.head?_eq_some_iff.mp line
    rw [if_pos line] at matched ⊢
    obtain ⟨result, after, ended, cut⟩ := skipLine_cuts here rfl nothing
    exact ⟨result, after, (bind_of_ok matched).trans ended, cut⟩
  · rw [if_neg line] at matched ⊢
    by_cases block : cs.head? = some '*'
    · obtain ⟨more, rfl⟩ := List.head?_eq_some_iff.mp block
      rw [if_pos block] at matched' ⊢
      obtain ⟨result, after, ended, cut⟩ := blockComment_cuts here rfl nothing
      exact ⟨result, after, (bind_of_ok matched).trans ((bind_of_ok matched').trans ended), cut⟩
    · rw [if_neg block] at matched' ⊢
      have alone : symbolPiece '/' cs = singlePiece '/' cs := symbolPiece_alone fun _ _ => rfl
      have found : singlePiece '/' cs = ⟨.token (.symbol .slash), ['/'], cs⟩ := singlePiece_symbol_eq rfl
      rw [alone, found]
      exact ⟨none, _, (bind_of_ok matched).trans (bind_of_ok matched'), recognized_cut _ first rfl rfl⟩

/-- What the scan passes is the piece at the front of the characters ahead. -/
theorem scanToken_cuts (begun : s.start = s.curr) (nothing : s.pending = none) :
    Cuts (scanToken text) text front s s (piece c cs) := by
  unfold Cuts
  rw [scanToken_eq here]
  change Cuts (scanOpening text (Opening.of c)) text front s (s.skip 1) (piece c cs)
  have ascii : Opening.of c ≠ .other → c.toNat < 128 := ascii_of_opening
  have first (opens : Opening.of c ≠ .other) : At text (front ++ [c]) cs (s.skip 1) :=
    here.step (ascii opens) rfl
  generalize opening : Opening.of c = o at ascii first
  cases Opens.of_eq opening with
  | single spelled unslashed alone => exact single_cuts here (ascii nofun) spelled unslashed fun d _ => alone d
  | either spelled spelled' unslashed alone => exact either_cuts here (ascii nofun) spelled spelled' unslashed alone
  | blank blank unbroken =>
    have found : piece c cs = ⟨.blank, [c], cs⟩ := if_pos blank
    rw [found]
    exact ⟨none, _, rfl, blank_cut (first nofun) rfl (by rw [count_single unbroken]; rfl) nothing⟩
  | lineFeed broken =>
    subst broken
    have behind := first nofun
    let after : Scanner := { s.skip 1 with line := s.line + 1 }
    have here' : At text (front ++ ['\n']) cs after := ⟨behind.whole, behind.curr⟩
    exact ⟨none, after, rfl, blank_cut here' rfl rfl nothing⟩
  | slash slash => exact slash_cuts here slash nothing
  | quote quote =>
    have found : piece c cs = stringPiece cs := by
      subst quote
      simp [piece, isBlank]
    rw [found]
    exact parseString_cuts here begun quote
  | digit digit =>
    rw [piece_of_digit digit]
    exact parseNumber_cuts here begun digit
  | letter starts =>
    rw [piece_of_name starts]
    exact parseIdentifier_cuts here begun starts
  | other undigit unnamed unblank unslashed unquoted none =>
    have absent (rest : List Char) : Symbol.ofSpelling? (c :: rest) = Option.none := by
      rw [Option.eq_none_iff_forall_ne_some]
      intro sym found
      exact none sym rest (Symbol.spelling_of_found found)
    have alone : symbolPiece c cs = singlePiece c cs := symbolPiece_alone fun d _ => absent [d]
    have found : singlePiece c cs = ⟨.fault (.unexpectedCharacter c), [c], cs⟩ := by
      rw [singlePiece, absent []]
    have unbroken : c ≠ '\n' := by
      rintro rfl
      cases unblank
    rw [piece_of_plain unslashed unblank unquoted undigit unnamed, alone, found]
    exact unexpected_cuts here begun unbroken

end Parts

/-- The scanner stands where the scan does. -/
structure Represents (text : String) (scan : Scan) (s : Scanner) : Prop where
  line : s.line = scan.line
  place : (scan.ended = false ∧ ∃ front, At text front scan.ahead s) ∨
    scan.ended = true ∧ s.curr = (source text).length + 1

theorem represents_start (text : String) : Represents text (.start text) .new :=
  ⟨rfl, .inl ⟨rfl, [], rfl, rfl⟩⟩

theorem Represents.open_ {scan : Scan} (represents : Represents text scan s) (opened : ¬ scan.ended = true) :
    ∃ front, At text front scan.ahead s := by
  obtain ⟨_, here⟩ | ⟨ended, _⟩ := represents.place
  · exact here
  · exact absurd ended opened

/-- A piece that is passed takes at least one byte. -/
theorem bytes_pos {consumed : List Char} (some : consumed ≠ []) : 0 < (bytes consumed).length := by
  cases consumed with
  | nil => exact absurd rfl some
  | cons c rest =>
    rw [bytes_cons, List.length_append]
    have first := List.length_pos_iff.mpr (String.utf8EncodeChar_ne_nil (c := c))
    omega

/-- Between characters, with more of them ahead, the scanner cuts the next piece off. -/
theorem nextWithin_piece (here : At text front (c :: cs) s) (n : Nat) : ∃ after,
    At text (front ++ (piece c cs).consumed) (piece c cs).rest after ∧ s.curr < after.curr ∧
      after.line = s.line + (piece c cs).consumed.count '\n' ∧
      nextWithin text (n + 1) s = match (piece c cs).found with
        | .blank => nextWithin text n after
        | .token kind => .ok (some (.token ⟨kind, String.ofList (piece c cs).consumed, after.line⟩)) after
        | .fault cause => .ok (some (.fault ⟨cause, after.line⟩)) after := by
  let begun : Scanner := { s with start := s.curr, pending := none }
  have here' : At text front (c :: cs) begun := ⟨here.whole, here.curr⟩
  obtain ⟨result, after, ended, behind, start, line, found⟩ := scanToken_cuts here' rfl rfl
  have inside : s.curr < (source text).length := by
    have some := bytes_pos (List.cons_ne_nil c cs)
    rw [here.size]
    omega
  have moved : s.curr < after.curr := by
    have some := bytes_pos (piece_consumed_ne_nil c cs)
    rw [here.curr, behind.curr, bytes_append, List.length_append]
    omega
  have started : (get : Part Scanner) s = .ok s s := rfl
  have begins : (set begun : Part PUnit) s = .ok ⟨⟩ begun := rfl
  rw [nextWithin, bind_of_ok started, if_neg (Nat.not_lt_of_lt inside), if_neg (Nat.ne_of_lt inside),
    bind_of_ok begins, bind_of_ok ended]
  have taken : (get : Part Scanner) after = .ok after after := rfl
  cases kinds : (piece c cs).found with
  | blank =>
    rw [kinds] at found
    obtain ⟨rfl, pending⟩ := found
    have nothing : takePending text after = .ok none after := by
      rw [takePending, bind_of_ok taken, pending]
      rfl
    exact ⟨after, behind, moved, line, bind_of_ok nothing⟩
  | token kind =>
    rw [kinds] at found
    obtain ⟨rfl, pending⟩ := found
    let given : Scanner := { after with pending := none }
    have gives : takePending text after =
        .ok (some (.token ⟨kind, String.ofList (piece c cs).consumed, after.line⟩)) given := by
      have behind' : At text (front ++ (piece c cs).consumed) (piece c cs).rest given :=
        ⟨behind.whole, behind.curr⟩
      have slice' : textBetween text after.start after.curr given = .ok _ given :=
        slice_eq here' rfl behind' start
      rw [takePending, bind_of_ok taken, pending]
      exact bind_of_ok slice'
    exact ⟨given, ⟨behind.whole, behind.curr⟩, moved, line, bind_of_ok gives⟩
  | fault cause =>
    rw [kinds] at found
    obtain rfl := found
    exact ⟨after, behind, moved, line, rfl⟩

/-- At the end of the text the end marker is given, and the scanner goes behind the end. -/
theorem nextWithin_end (here : At text front [] s) (n : Nat) :
    nextWithin text (n + 1) s = .ok (some (.token (.endOfFile s.line))) (s.skip 1) := by
  have curr : s.curr = (source text).length := by rw [here.size, bytes_nil, List.length_nil, Nat.add_zero]
  have started : (get : Part Scanner) s = .ok s s := rfl
  rw [nextWithin, bind_of_ok started, if_neg (Nat.not_lt_of_le (Nat.le_of_eq curr)), if_pos curr]
  rfl

/-- Behind the end nothing is given and nothing changes. -/
theorem nextWithin_behind (behind : s.curr = (source text).length + 1) (n : Nat) :
    nextWithin text (n + 1) s = .ok none s := by
  have started : (get : Part Scanner) s = .ok s s := rfl
  rw [nextWithin, bind_of_ok started, if_pos (by rw [behind]; exact Nat.lt_succ_self _)]
  rfl

/-- Before the end marker has been given, something is left. -/
theorem next?_ne_none {scan : Scan} (opened : scan.ended = false) : scan.next? ≠ none := by
  fun_induction Scan.next? scan with
  | case1 scan ended =>
    rw [opened] at ended
    cases ended
  | case3 scan _ c cs ahead p next found ih => exact ih rfl
  | case2 | case4 | case5 => exact Option.some_ne_none _

/-- The scanner gives the next item if there is one, and has passed a byte then. -/
theorem nextWithin_represents (scan : Scan) : ∀ {s : Scanner} {n : Nat}, (left text s).length < n →
    Represents text scan s →
    match scan.next? with
    | none => nextWithin text n s = .ok none s
    | some (item, later) => ∃ after, nextWithin text n s = .ok (some item) after ∧
        Represents text later after ∧ s.curr < after.curr := by
  fun_induction Scan.next? scan
  all_goals
    intro s n enough represents
    obtain ⟨n, rfl⟩ := Nat.exists_eq_add_of_le' (Nat.succ_le_of_lt (Nat.zero_lt_of_lt enough))
  case case1 scan ended =>
    obtain ⟨opened, _⟩ | ⟨_, behind⟩ := represents.place
    · rw [opened] at ended
      cases ended
    · exact nextWithin_behind behind n
  case case2 scan opened nothing =>
    obtain ⟨front, here⟩ := represents.open_ opened
    rw [nothing] at here
    refine ⟨s.skip 1, ?_, ⟨represents.line, .inr ⟨rfl, ?_⟩⟩, Nat.lt_succ_self _⟩
    · rw [nextWithin_end here, represents.line]
    · rw [Scanner.skip_curr, here.size]
      rfl
  case case3 scan opened c cs ahead p next found ih =>
    obtain ⟨front, here⟩ := represents.open_ opened
    obtain ⟨after, behind, moved, line, ended⟩ := nextWithin_piece (ahead ▸ here) n
    -- a blank piece is skipped, and has taken a byte, so the fuel is enough for what is left
    have fewer : (left text after).length < n := by
      have size := behind.size
      have size' := here.size
      rw [here.left] at enough
      rw [behind.left]
      omega
    have later := ih fewer ⟨by rw [line, represents.line], .inl ⟨rfl, _, behind⟩⟩
    rw [show (piece c cs).found = .blank from found] at ended
    rw [ended]
    cases some : next.next? with
    | none => exact absurd some (next?_ne_none rfl)
    | some pair =>
      rw [some] at later
      obtain ⟨last, gives, represents, further⟩ := later
      exact ⟨last, gives, represents, Nat.lt_trans moved further⟩
  case case4 scan opened c cs ahead p next kind found =>
    obtain ⟨front, here⟩ := represents.open_ opened
    obtain ⟨after, behind, moved, line, ended⟩ := nextWithin_piece (ahead ▸ here) n
    rw [show (piece c cs).found = .token kind from found] at ended
    rw [represents.line] at line
    exact ⟨after, by rw [ended, line], ⟨line, .inl ⟨rfl, _, behind⟩⟩, moved⟩
  case case5 scan opened c cs ahead p next cause found =>
    obtain ⟨front, here⟩ := represents.open_ opened
    obtain ⟨after, behind, moved, line, ended⟩ := nextWithin_piece (ahead ▸ here) n
    rw [show (piece c cs).found = .fault cause from found] at ended
    rw [represents.line] at line
    exact ⟨after, by rw [ended, line], ⟨line, .inl ⟨rfl, _, behind⟩⟩, moved⟩

theorem next_represents {scan : Scan} (represents : Represents text scan s) :
    match scan.next? with
    | none => next text s = .ok none s
    | some (item, later) => ∃ after, next text s = .ok (some item) after ∧
        Represents text later after ∧ s.curr < after.curr := by
  apply nextWithin_represents scan _ represents
  rw [left, List.length_drop]
  omega

/-- The scanners that some calls lead to. -/
inductive Reached (text : String) : Scanner → Prop
  | start : Reached text .new
  | step {s after : Scanner} {found : Option Item} (reached : Reached text s)
    (called : next text s = .ok found after) : Reached text after

theorem Reached.represents (reached : Reached text s) : ∃ scan, Represents text scan s := by
  induction reached with
  | start => exact ⟨_, represents_start text⟩
  | step _ called ih =>
    obtain ⟨scan, represents⟩ := ih
    have gives := next_represents represents
    cases given : scan.next? with
    | none =>
      rw [given] at gives
      cases gives.symm.trans called
      exact ⟨scan, represents⟩
    | some pair =>
      rw [given] at gives
      obtain ⟨_, ended, later, _⟩ := gives
      cases ended.symm.trans called
      exact ⟨pair.2, later⟩

/-- Call by call, the scanner gives these items. -/
inductive Yields (text : String) : Scanner → List Item → Scanner → Prop
  | nothing {s : Scanner} : Yields text s [] s
  | item {s middle last : Scanner} {first : Item} {items : List Item}
    (called : next text s = .ok (some first) middle) (rest : Yields text middle items last) :
    Yields text s (first :: items) last

/-- The scanner yields the items of the scan, and nothing after them. -/
theorem Represents.yields {scan : Scan} (represents : Represents text scan s) :
    ∃ last, Yields text s scan.items last ∧ next text last = .ok none last := by
  fun_induction Scan.items scan generalizing s with
  | case1 scan given =>
    have gives := next_represents represents
    rw [given] at gives
    exact ⟨s, .nothing, gives⟩
  | case2 scan item later given ih =>
    have gives := next_represents represents
    rw [given] at gives
    obtain ⟨after, called, represents, _⟩ := gives
    obtain ⟨last, rest, ends⟩ := ih represents
    exact ⟨last, .item called rest, ends⟩

/-- Whatever the text, no call of the scanner looks at a byte that is not there, slices the text
outside its range or inside a character, or goes on for ever; where it gives an item it has passed a
byte. Call by call it yields finitely many items, lexical faults among them. The last one is the only
end marker, and no further call gives anything. -/
theorem scanning_stays_in_text (text : String) :
    (∀ s, Reached text s → ∃ found after, next text s = .ok found after ∧
      (found.isSome → s.curr < after.curr)) ∧
    ∃ items line last, Yields text .new (items ++ [.token (.endOfFile line)]) last ∧
      (Scan.start text).items = items ++ [.token (.endOfFile line)] ∧
      (∀ t, .token t ∈ items → t.kind ≠ .endOfFile) ∧ next text last = .ok none last := by
  constructor
  · intro s reached
    obtain ⟨scan, represents⟩ := reached.represents
    have gives := next_represents represents
    cases given : scan.next? with
    | none =>
      rw [given] at gives
      exact ⟨none, s, gives, nofun⟩
    | some pair =>
      rw [given] at gives
      obtain ⟨after, called, _, further⟩ := gives
      exact ⟨some pair.1, after, called, fun _ => further⟩
  · obtain ⟨items, whole, single⟩ := Scan.items_end text.toList 1
    have whole : (Scan.start text).items = _ := whole
    obtain ⟨last, yields, ends⟩ := (represents_start text).yields
    rw [whole] at yields
    exact ⟨items, _, last, yields, whole, fun t member => (single t member).1, ends⟩

end LoxLang.Bytewise
