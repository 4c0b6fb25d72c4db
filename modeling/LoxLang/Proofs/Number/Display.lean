import Mathlib
import LoxLang.Number
import LoxLang.Token.Scan

/-! Finite numbers as `print` shows them. Their text is a sign, if any, and then positional or scientific
notation; both begin with a digit, and the letter of the exponent tells them apart. So two numbers that are
shown alike are written alike in one of the two notations. -/
namespace LoxLang
open Float.Model.UnpackedFloat

section Sign

variable (spec : Float.Model.Format)

theorem unpackSign_packComponents (sign : Sign) (exponent : BitVec spec.exponentBits)
    (mantissa : BitVec spec.mantissaBitsWithoutImplicit) :
    unpackSign (packComponents spec sign exponent mantissa) = sign.toBitVec := by
  unfold unpackSign packComponents
  ext i inside
  obtain rfl : i = 0 := by omega
  have last : spec.exponentBits < 1 + spec.exponentBits := by omega
  have top : (sign.toBitVec ++ exponent)[spec.exponentBits] = sign.toBitVec[0] := by
    rw [BitVec.getElem_append]
    simp
  have above : ¬ spec.mantissaBitsWithoutImplicit + spec.exponentBits < spec.mantissaBitsWithoutImplicit := by
    omega
  simp [BitVec.getElem_cast, BitVec.getLsbD_append, above, top]

/-- The sign bit of a magnitude is clear. -/
theorem unpackSign_pack_abs (u : Float.Model.UnpackedFloat) : unpackSign (pack spec u.abs) = 0#1 := by
  have positive := unpackSign_packComponents spec .positive
  cases u with
  | notANumber => exact positive _ _
  | infinity => exact positive _ _
  | zero => exact positive _ _
  | finite sign mantissa exponent some =>
    simp only [Float.Model.UnpackedFloat.abs, pack]
    split
    · exact positive _ _
    · split <;> exact positive _ _

theorem unpack_not_lt_zero {b : BitVec spec.numBits} (clear : unpackSign b = 0#1) (sign : Sign) :
    (unpack spec b).lt (.zero sign) = false := by
  have positive : Sign.ofBitVec (unpackSign b) = .positive := by
    rw [clear]
    rfl
  unfold unpack
  simp only [positive]
  split
  · split <;> rfl
  · split
    · split <;> rfl
    · rfl

theorem abs_not_neg (x : Float) : ¬ x.abs < 0 := by
  intro less
  have negative : x.abs.toModel.lt (0 : Float).toModel = true :=
    of_decide_eq_true (less : x.abs.lt 0 = true)
  have absent : x.abs.toModel.lt (0 : Float).toModel = false :=
    unpack_not_lt_zero _ (unpackSign_pack_abs _ _) .positive
  rw [absent] at negative
  cases negative

end Sign

theorem ordinary_of_finite {x : Float} (finite : x.isFinite = true) : x.isNaN = false ∧ x.isInf = false := by
  unfold Float.isFinite Float.Model.isFinite at finite
  unfold Float.isNaN Float.isInf Float.Model.isNaN Float.Model.isInf
  cases unpacked : x.toModel.unpack with
  | notANumber =>
    rw [unpacked] at finite
    cases finite
  | infinity sign =>
    rw [unpacked] at finite
    cases finite
  | _ => exact ⟨rfl, rfl⟩

theorem toBits_injective {x y : Float} (same : x.toBits = y.toBits) : x = y := by
  obtain ⟨⟨bits, valid⟩⟩ := x
  obtain ⟨⟨bits', valid'⟩⟩ := y
  cases same
  rfl

namespace Decimal

variable (d : Decimal)

/-- A character of a number that is written without an exponent. -/
def isPositionalChar (c : Char) : Bool := isDigit c || c = '.'

/-- A text that begins with a digit. -/
def OpensDigit (cs : List Char) : Prop := ∃ c rest, cs = c :: rest ∧ isDigit c = true

theorem isDigit_of_toDigits {n : Nat} {c : Char} (member : c ∈ Nat.toDigits 10 n) : isDigit c = true := by
  have digit := Nat.isDigit_of_mem_toDigits (by decide) (Nat.le_refl 10) member
  simpa [Char.isDigit, isDigit, Char.le_def] using digit

theorem opensDigit_toDigits (n : Nat) : OpensDigit (Nat.toDigits 10 n) := by
  obtain ⟨c, rest, digits⟩ := List.exists_cons_of_ne_nil (Nat.toDigits_ne_nil : Nat.toDigits 10 n ≠ [])
  exact ⟨c, rest, digits, isDigit_of_toDigits (digits ▸ List.mem_cons_self)⟩

theorem OpensDigit.append {cs : List Char} (opens : OpensDigit cs) (more : List Char) :
    OpensDigit (cs ++ more) := by
  obtain ⟨c, rest, rfl, digit⟩ := opens
  exact ⟨c, rest ++ more, rfl, digit⟩

theorem positional_chars : OpensDigit d.positional.toList ∧
    ∀ c ∈ d.positional.toList, isPositionalChar c = true := by
  have digit (c : Char) (member : c ∈ Nat.toDigits 10 d.digits) : isPositionalChar c = true := by
    rw [isPositionalChar, isDigit_of_toDigits member, Bool.true_or]
  have zero : isPositionalChar '0' = true := by decide
  have point : isPositionalChar '.' = true := by decide
  have zeros (n : Nat) : ∀ c ∈ List.replicate n '0', isPositionalChar c = true :=
    List.forall_mem_replicate.mpr (.inr zero)
  unfold positional
  dsimp only
  split
  · rw [String.toList_ofList]
    exact ⟨(opensDigit_toDigits _).append _, List.forall_mem_append.mpr ⟨digit, zeros _⟩⟩
  split
  · next inside =>
    rw [String.toList_ofList]
    constructor
    · obtain ⟨c, rest, digits, opens⟩ := opensDigit_toDigits d.digits
      obtain ⟨n, position⟩ : ∃ n, ((Nat.toDigits 10 d.digits).length + d.exponent : Int).toNat = n + 1 :=
        Nat.exists_eq_add_of_le' (by omega)
      rw [position, digits]
      exact ⟨c, _, rfl, opens⟩
    · refine List.forall_mem_append.mpr ⟨fun c member => digit c (List.mem_of_mem_take member), ?_⟩
      exact List.forall_mem_cons.mpr ⟨point, fun c member => digit c (List.mem_of_mem_drop member)⟩
  · rw [String.toList_ofList]
    refine ⟨⟨'0', _, rfl, by decide⟩, List.forall_mem_append.mpr ⟨?_, digit⟩⟩
    exact List.forall_mem_cons.mpr ⟨zero, List.forall_mem_cons.mpr ⟨point, zeros _⟩⟩

/-- A character of a number that is written with an exponent. -/
def isScientificChar (c : Char) : Bool := isPositionalChar c || c = 'e' || c = '+' || c = '-'

theorem isScientificChar_of_positional {c : Char} (among : isPositionalChar c = true) :
    isScientificChar c = true := by
  rw [isScientificChar, among]
  rfl

theorem scientific_chars : OpensDigit d.scientific.toList ∧ 'e' ∈ d.scientific.toList ∧
    ∀ c ∈ d.scientific.toList, isScientificChar c = true := by
  have digit (n : Nat) (c : Char) (member : c ∈ Nat.toDigits 10 n) : isScientificChar c = true := by
    apply isScientificChar_of_positional
    rw [isPositionalChar, isDigit_of_toDigits member, Bool.true_or]
  obtain ⟨c, rest, digits, opens⟩ := opensDigit_toDigits d.digits
  have own := digit d.digits
  unfold scientific
  dsimp only
  rw [String.toList_ofList]
  rw [digits] at own ⊢
  obtain ⟨first, others⟩ := List.forall_mem_cons.mp own
  refine ⟨?_, List.mem_append_right _ List.mem_cons_self, ?_⟩
  · cases rest <;> exact ⟨c, _, rfl, opens⟩
  · refine List.forall_mem_append.mpr ⟨?_, List.forall_mem_cons.mpr ⟨by decide, ?_⟩⟩
    · cases rest with
      | nil => exact own
      | cons => exact List.forall_mem_cons.mpr ⟨first, List.forall_mem_cons.mpr ⟨by decide, others⟩⟩
    refine List.forall_mem_cons.mpr ⟨?_, digit _⟩
    split <;> decide

end Decimal

namespace Number
open Decimal

variable {x y : Float}

/-- The text of a finite number: a minus sign if it is negative, and its magnitude. -/
theorem write_eq (finite : x.isFinite = true) :
    displayForm.write x = (if x < 0 then "-" else "") ++ displayForm.magnitude x := by
  obtain ⟨number, bounded⟩ := ordinary_of_finite finite
  unfold Form.write
  rw [number, bounded]
  by_cases zero : x.toBits = (-0.0 : Float).toBits
  · rw [toBits_injective zero]
    decide +kernel
  · rw [if_neg zero]
    rfl

theorem isPositional_eq_true_iff (x : Float) :
    displayForm.isPositional x = true ↔ (x == 0) = true ∨ 1e-6 ≤ x.abs ∧ x.abs < 1e21 := by
  unfold Form.isPositional
  rw [Bool.or_eq_true, Bool.and_eq_true, decide_eq_true_iff]
  exact or_congr_right (and_congr_right' decide_eq_true_iff)

theorem magnitude_eq_ite (x : Float) : displayForm.magnitude x =
    if displayForm.isPositional x then (shortest .up x).positional else (shortest .up x).scientific := by
  have wide : ¬ x.abs < displayForm.pointZeroBelow := abs_not_neg x
  unfold Form.magnitude
  simp only [wide, decide_false, Bool.and_false, Bool.false_eq_true, if_false, String.append_empty]
  rfl

/-- The magnitude is written in one of the two notations. -/
theorem magnitude_eq (x : Float) :
    displayForm.magnitude x = (shortest .up x).positional ∨
      displayForm.magnitude x = (shortest .up x).scientific := by
  rw [magnitude_eq_ite]
  exact ite_eq_or_eq _ _ _

theorem magnitude_chars (x : Float) : OpensDigit (displayForm.magnitude x).toList ∧
    ∀ c ∈ (displayForm.magnitude x).toList, isScientificChar c = true := by
  obtain same | same := magnitude_eq x
  · rw [same]
    obtain ⟨opens, chars⟩ := positional_chars (shortest .up x)
    exact ⟨opens, fun c member => isScientificChar_of_positional (chars c member)⟩
  · rw [same]
    obtain ⟨opens, _, chars⟩ := scientific_chars (shortest .up x)
    exact ⟨opens, chars⟩

/-- The text of a finite number begins with a digit or a minus sign. -/
theorem write_chars (finite : x.isFinite = true) :
    (∃ c rest, (displayForm.write x).toList = c :: rest ∧ (isDigit c = true ∨ c = '-')) ∧
      ∀ c ∈ (displayForm.write x).toList, isScientificChar c = true := by
  obtain ⟨⟨c, rest, opens, digit⟩, chars⟩ := magnitude_chars x
  rw [write_eq finite, String.toList_append]
  split
  · exact ⟨⟨'-', _, rfl, .inr rfl⟩, List.forall_mem_cons.mpr ⟨by decide, chars⟩⟩
  · exact ⟨⟨c, rest, opens, .inl digit⟩, chars⟩

/-- One of the two notations writes the magnitudes of the numbers alike. -/
def WrittenAlike (x y : Float) : Prop :=
  (shortest .up x).positional = (shortest .up y).positional ∨
    (shortest .up x).scientific = (shortest .up y).scientific

theorem writtenAlike_of_magnitude (same : displayForm.magnitude x = displayForm.magnitude y) :
    WrittenAlike x y := by
  have apart (d d' : Decimal) : d.positional ≠ d'.scientific := by
    intro alike
    have letter := (scientific_chars d').2.1
    rw [← alike] at letter
    exact absurd ((positional_chars d).2 'e' letter) (by decide)
  obtain first | first := magnitude_eq x <;> obtain second | second := magnitude_eq y
  · exact .inl (first.symm.trans (same.trans second))
  · exact absurd (first.symm.trans (same.trans second)) (apart _ _)
  · exact absurd (second.symm.trans (same.symm.trans first)) (apart _ _)
  · exact .inr (first.symm.trans (same.trans second))

/-- Finite numbers that have one text are written alike in one of the notations. -/
theorem writtenAlike_of_write (finite : x.isFinite = true) (finite' : y.isFinite = true)
    (same : displayForm.write x = displayForm.write y) : WrittenAlike x y := by
  rw [write_eq finite, write_eq finite'] at same
  have unsigned (x y : Float) : displayForm.magnitude x ≠ "-" ++ displayForm.magnitude y := by
    intro alike
    obtain ⟨c, rest, opens, digit⟩ := (magnitude_chars x).1
    rw [alike, String.toList_append] at opens
    obtain rfl : '-' = c := (List.cons.inj opens).1
    exact absurd digit (by decide)
  apply writtenAlike_of_magnitude
  split at same <;> split at same
  · exact String.append_right_inj "-" |>.mp same
  · exact absurd same.symm (by simpa using unsigned y x)
  · exact absurd same (by simpa using unsigned x y)
  · simpa using same

end Number

end LoxLang
