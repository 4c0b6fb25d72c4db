import LoxLang.Proofs.Number.Whole
import LoxLang.Proofs.Token.Respelling

/-! Displayed numbers as literals. What positional notation writes is a number of the lexicon, and its digits with
the place of the point are the decimal that was written. A text with an exponent is no lexeme. So a number that is
displayed positionally is scanned as one token, with the number as its value, and no other is. -/
namespace LoxLang

namespace Decimal

variable (d : Decimal)

/-! ### Digits around a point -/

theorem ofDigitChars_zeros (k n : Nat) : Nat.ofDigitChars 10 (List.replicate k '0') n = n * 10 ^ k := by
  induction k generalizing n with
  | zero => simp
  | succ k ih =>
    rw [List.replicate_succ, Nat.ofDigitChars_cons, Nat.sub_self, ih, pow_succ]
    ring

/-- The decimal that scanning makes of digits around a point. -/
theorem ofDigits_eq (whole fraction : List Char) : Number.ofDigits whole fraction =
    toFloat ⟨Nat.ofDigitChars 10 (whole ++ fraction) 0, -fraction.length⟩ := rfl

section
variable {d} {digits : List Char} (number : Nat.ofDigitChars 10 digits 0 = d.digits)
include number

theorem ofDigits_behind {k : Nat} (exponent : d.exponent = k) :
    Number.ofDigits (digits ++ List.replicate k '0') [] = d.toFloat := by
  rw [ofDigits_eq, List.append_nil, Nat.ofDigitChars_append, number, ofDigitChars_zeros]
  apply toFloat_eq_of_value
  rw [value_mul_pow, List.length_nil, Nat.cast_zero, neg_zero, zero_add, ← exponent]

theorem ofDigits_inside {k : Nat} (exponent : d.exponent = -k) (few : k ≤ digits.length) :
    Number.ofDigits (digits.take (digits.length - k)) (digits.drop (digits.length - k)) = d.toFloat := by
  rw [ofDigits_eq, List.take_append_drop, number, List.length_drop, Nat.sub_sub_self few, ← exponent]

theorem ofDigits_before {k : Nat} (exponent : d.exponent = -(k + digits.length : Nat)) :
    Number.ofDigits ['0'] (List.replicate k '0' ++ digits) = d.toFloat := by
  rw [ofDigits_eq, List.length_append, List.length_replicate, ← exponent, List.singleton_append,
    Nat.ofDigitChars_cons, Nat.ofDigitChars_append, ofDigitChars_zeros, Nat.sub_self, mul_zero, zero_add, zero_mul,
    number]

end

theorem isDigit_of_zeros {k : Nat} : ∀ c ∈ List.replicate k '0', isDigit c = true :=
  List.forall_mem_replicate.mpr (.inr rfl)

/-- Digits in positional notation are a number, which is scanned as the decimal that they stand for. -/
theorem positional_lexeme : Lexeme (.number d.toFloat) d.positional.toList := by
  have digit (c : Char) (member : c ∈ Nat.toDigits 10 d.digits) : isDigit c = true := isDigit_of_toDigits member
  have some : 0 < (Nat.toDigits 10 d.digits).length := List.length_pos_iff.mpr Nat.toDigits_ne_nil
  have number : Nat.ofDigitChars 10 (Nat.toDigits 10 d.digits) 0 = d.digits := Nat.ofDigitChars_ten_toDigits
  unfold positional
  dsimp only
  generalize Nat.toDigits 10 d.digits = digits at digit some number
  split_ifs with whole inside
  · rw [String.toList_ofList, ← ofDigits_behind number (Int.toNat_of_nonneg whole).symm]
    refine .whole ?_ (List.forall_mem_append.mpr ⟨digit, isDigit_of_zeros⟩)
    simp [List.length_pos_iff.mp some]
  · have place : (digits.length + d.exponent).toNat = digits.length - d.exponent.natAbs := by omega
    rw [String.toList_ofList, place, ← ofDigits_inside number (by omega) (by omega : d.exponent.natAbs ≤ _)]
    refine .decimal ?_ (fun c member => digit c (List.mem_of_mem_take member)) ?_
      fun c member => digit c (List.mem_of_mem_drop member)
    · rw [← List.length_pos_iff, List.length_take]
      omega
    · rw [← List.length_pos_iff, List.length_drop]
      omega
  · have place : d.exponent = -((-(digits.length + d.exponent)).toNat + digits.length : Nat) := by omega
    rw [String.toList_ofList, ← ofDigits_before number place]
    refine .decimal (List.cons_ne_nil _ _) (List.forall_mem_singleton.mpr rfl) ?_
      (List.forall_mem_append.mpr ⟨isDigit_of_zeros, digit⟩)
    simp [List.length_pos_iff.mp some]

/-- A number in scientific notation is not a number of the lexicon. -/
theorem scientific_not_lexeme (v : Float) : ¬ Lexeme (.number v) d.scientific.toList := by
  intro lexeme
  have letter := (scientific_chars d).2.1
  have digits {cs : List Char} (all : ∀ c ∈ cs, isDigit c = true) : 'e' ∉ cs :=
    fun member => absurd (all 'e' member) (by decide)
  generalize d.scientific.toList = text at lexeme letter
  cases lexeme with
  | whole _ all => exact digits all letter
  | decimal _ all _ all' =>
    rcases List.mem_append.mp letter with first | later
    · exact digits all first
    · exact digits all' (List.mem_of_ne_of_mem (by decide) later)

end Decimal

/-! ### Texts of one lexeme -/

/-- A lexeme that is all of a text, on one line, is scanned as one token. -/
theorem scan_of_lexeme {kind : Token.Kind} {text : String} (lexeme : Lexeme kind text.toList)
    (unbroken : '\n' ∉ text.toList) : scan text = ([⟨kind, text, 1⟩, .endOfFile 1], []) := by
  have items : (Scan.start text).items = [.token ⟨kind, text, 1⟩, .token (.endOfFile 1)] := by
    have same : Scan.items ⟨text.toList ++ [], 1, false⟩ = _ := Scan.items_lexeme lexeme nofun
    rw [List.append_nil, List.count_eq_zero_of_not_mem unbroken, String.ofList_toList] at same
    exact same.trans (congrArg _ (Scan.items_nil 1))
  unfold scan
  rw [items]
  rfl

namespace Number
open Decimal Binary64

section
variable {x : Float} (finite : x.isFinite = true) (nonneg : x = 0 ∨ 0 < x)
include finite nonneg

theorem isPositional_iff : displayForm.isPositional x = true ↔ x = 0 ∨ 1e-6 ≤ x ∧ x < 1e21 := by
  rw [isPositional_eq_true_iff, abs_of_nonneg finite nonneg]
  refine or_congr_left ?_
  obtain rfl | positive := nonneg
  · decide +kernel
  · have nonzero := not_zero_of_pos positive
    rw [nonzero, Bool.false_eq_true, false_iff]
    rintro rfl
    exact absurd nonzero (by decide +kernel)

theorem display_eq_ite : display x =
    if x = 0 ∨ 1e-6 ≤ x ∧ x < 1e21 then (shortest .up x).positional else (shortest .up x).scientific := by
  have unsigned : ¬ x < 0 := by
    have wide := abs_not_neg x
    rwa [abs_of_nonneg finite nonneg] at wide
  rw [display_eq_write, write_eq finite, if_neg unsigned, String.empty_append, magnitude_eq_ite]
  exact if_congr (isPositional_iff finite nonneg) rfl rfl

/-- A finite number that is not negative is displayed as a number literal if and only if it is zero, or at least
10⁻⁶ and below 10²¹, and the literal is then read as the number. -/
theorem display_reads_back :
    ((∃ value line last, scan (display x) = ([⟨.number value, display x, line⟩, .endOfFile last], [])) ↔
      x = 0 ∨ 1e-6 ≤ x ∧ x < 1e21) ∧
    (x = 0 ∨ 1e-6 ≤ x ∧ x < 1e21 → scan (display x) = ([⟨.number x, display x, 1⟩, .endOfFile 1], [])) := by
  have literal (range : x = 0 ∨ 1e-6 ≤ x ∧ x < 1e21) :
      scan (display x) = ([⟨.number x, display x, 1⟩, .endOfFile 1], []) := by
    have value : (shortest .up x).toFloat = x := by rw [shortest_toFloat .up finite, abs_of_nonneg finite nonneg]
    have lexeme := positional_lexeme (shortest .up x)
    have chars := (positional_chars (shortest .up x)).2
    rw [display_eq_ite finite nonneg, if_pos range]
    rw [value] at lexeme
    exact scan_of_lexeme lexeme fun feed => absurd (chars _ feed) (by decide)
  refine ⟨⟨?_, fun range => ⟨x, 1, 1, literal range⟩⟩, literal⟩
  rintro ⟨value, line, last, scanned⟩
  by_contra outside
  have lexeme : Lexeme (.number value) (display x).toList :=
    scan_lexeme (t := ⟨.number value, display x, line⟩) (by rw [scanned]; exact List.mem_cons_self) nofun
  rw [display_eq_ite finite nonneg, if_neg outside] at lexeme
  exact scientific_not_lexeme _ value lexeme

end

/-- A large whole number is shown with zeros for the digits that it can do without. -/
theorem large_whole_reads_back : (1234567890123456789 : Float).isFinite = true ∧
    0 < (1234567890123456789 : Float) ∧
    scan "1234567890123456800" = ([⟨.number 1234567890123456789, "1234567890123456800", 1⟩, .endOfFile 1], []) := by
  have finite : (1234567890123456789 : Float).isFinite = true := by decide +kernel
  have positive : 0 < (1234567890123456789 : Float) := by decide +kernel
  have shown : display 1234567890123456789 = "1234567890123456800" := by decide +kernel
  have reads := (display_reads_back finite (.inr positive)).2 (.inr (by decide +kernel))
  rw [shown] at reads
  exact ⟨finite, positive, reads⟩

end Number

end LoxLang
