import Mathlib

/-! Rounding to binary64. A positive rational is rounded to a multiple of a power of two, the one that leaves 53
binary digits, or the least one that the format has; of two equally near multiples the even one is taken. Core
rounds a mantissa that it shifts to the right digit by digit, while it keeps the first digit that is lost and
whether any later one is not zero. That is all there is to know of a rational in order to round it, so what is
rounded depends on the rational alone, however it is given as a mantissa with an exponent. -/
namespace LoxLang.Binary64
open Float.Model Float.Model.UnpackedFloat

/-- The nearest natural, of two equally near ones the even one. -/
def roundHalfEven (v : ℚ) : Nat :=
  if v - ⌊v⌋₊ < 1 / 2 then ⌊v⌋₊
  else if 1 / 2 < v - ⌊v⌋₊ then ⌊v⌋₊ + 1
  else ⌊v⌋₊ + ⌊v⌋₊ % 2

/-- The exponent of the last binary digit that a number of this size keeps. -/
def lastPlace (q : ℚ) : ℤ := max (Int.log 2 q - 52) (-1074)

/-- The number `mantissa · 2 ^ exponent`. -/
def ofParts (mantissa : Nat) (exponent : ℤ) : UnpackedFloat :=
  if none : mantissa = 0 then .zero .positive
  else .finite .positive mantissa exponent (Nat.pos_of_ne_zero none)

theorem ofParts_of_pos {m : Nat} (e : ℤ) (positive : 0 < m) : ofParts m e = .finite .positive m e positive :=
  dif_neg positive.ne'

/-- The number nearest to a rational that is not negative, whose exponent need not fit into the format. -/
def nearest (q : ℚ) : UnpackedFloat :=
  let mantissa := roundHalfEven (q / 2 ^ lastPlace q)
  if mantissa < 2 ^ 53 then ofParts mantissa (lastPlace q) else ofParts (2 ^ 52) (lastPlace q + 1)

theorem roundHalfEven_natCast (m : Nat) : roundHalfEven m = m := by
  simp [roundHalfEven]

theorem floor_le_roundHalfEven (v : ℚ) : ⌊v⌋₊ ≤ roundHalfEven v := by
  unfold roundHalfEven
  split_ifs <;> omega

theorem roundHalfEven_le (v : ℚ) : roundHalfEven v ≤ ⌊v⌋₊ + 1 := by
  unfold roundHalfEven
  split_ifs <;> omega

/-! ### Residual bits -/

/-- The mantissa and its residual bits say where the rational is between the halves of naturals. -/
def Represents (em : ExtendedMantissa) (v : ℚ) : Prop :=
  let low : ℚ := em.mantissa + if em.roundBit then 1 / 2 else 0
  if em.stickyBit then low < v ∧ v < low + 1 / 2 else v = low

namespace Represents

variable {em : ExtendedMantissa} {v : ℚ}

theorem exact (m : Nat) : Represents (.ofMantissaAndAccuracy m .exact) m := by
  simp [Represents, ExtendedMantissa.ofMantissaAndAccuracy]

/-- A quotient with its remainder represents a fraction. -/
theorem fraction (a : Nat) {b : Nat} (positive : 0 < b) :
    Represents (.ofMantissaAndAccuracy (a / b) (accuracyOfFraction (a % b) b)) (a / b) := by
  have scale : (0 : ℚ) < b := by exact_mod_cast positive
  have less : ((a % b : Nat) : ℚ) < b := by exact_mod_cast Nat.mod_lt a positive
  have split : (a : ℚ) / b = (a / b : Nat) + (a % b : Nat) / b := by
    have whole : (a : ℚ) = b * (a / b : Nat) + (a % b : Nat) := by exact_mod_cast (Nat.div_add_mod a b).symm
    rw [whole]
    field_simp
  rw [split]
  unfold accuracyOfFraction
  split_ifs with none
  · simp [none, Represents, ExtendedMantissa.ofMantissaAndAccuracy]
  have some : (0 : ℚ) < (a % b : Nat) := by exact_mod_cast Nat.pos_of_ne_zero none
  rcases order : compare (2 * (a % b)) b with _ | _ | _ <;>
    simp only [Represents, ExtendedMantissa.ofMantissaAndAccuracy, Bool.false_eq_true, if_false, if_true]
  · have half : (2 : ℚ) * (a % b : Nat) < b := by exact_mod_cast Nat.compare_eq_lt.mp order
    rw [add_zero, lt_add_iff_pos_right, add_lt_add_iff_left, div_lt_div_iff₀ scale two_pos]
    exact ⟨div_pos some scale, by linarith⟩
  · have half : (2 : ℚ) * (a % b : Nat) = b := by exact_mod_cast Nat.compare_eq_eq.mp order
    rw [add_right_inj, div_eq_div_iff scale.ne' two_ne_zero]
    linarith
  · have half : (b : ℚ) < 2 * (a % b : Nat) := by exact_mod_cast Nat.compare_eq_gt.mp order
    rw [add_assoc, add_lt_add_iff_left, add_lt_add_iff_left, add_halves, div_lt_div_iff₀ two_pos scale,
      div_lt_one scale]
    exact ⟨by linarith, less⟩

theorem bounds (represents : Represents em v) : (em.mantissa : ℚ) ≤ v ∧ v < em.mantissa + 1 := by
  obtain ⟨m, round, sticky⟩ := em
  cases round <;> cases sticky <;> simp [Represents] at represents ⊢ <;> constructor <;> linarith

theorem floor (represents : Represents em v) : ⌊v⌋₊ = em.mantissa := by
  obtain ⟨low, high⟩ := represents.bounds
  exact (Nat.floor_eq_iff (le_trans (Nat.cast_nonneg _) low)).mpr ⟨low, high⟩

theorem roundedMantissa (represents : Represents em v) : em.roundedMantissa = roundHalfEven v := by
  unfold roundHalfEven
  rw [represents.floor]
  obtain ⟨m, round, sticky⟩ := em
  cases round <;> cases sticky <;> simp [Represents] at represents
  · rw [represents, sub_self, if_pos (by norm_num)]
    rfl
  · rw [if_pos (by linarith)]
    rfl
  · rw [if_neg (by linarith), if_neg (by linarith)]
    rfl
  · rw [if_neg (by linarith), if_pos (by linarith)]
    rfl

theorem shiftRightOne (represents : Represents em v) : Represents em.shiftRightOne (v / 2) := by
  obtain ⟨m, round, sticky⟩ := em
  obtain ⟨n, rfl | rfl⟩ := Nat.even_or_odd' m
  · have half : 2 * n / 2 = n := by omega
    cases round <;> cases sticky <;> simp [Represents, ExtendedMantissa.shiftRightOne, half] at represents ⊢ <;>
      first | linarith | constructor <;> linarith
  · have half : (2 * n + 1) / 2 = n := by omega
    have odd : (2 * n + 1) % 2 = 1 := by omega
    cases round <;> cases sticky <;>
      simp [Represents, ExtendedMantissa.shiftRightOne, half, odd] at represents ⊢ <;>
      first | linarith | constructor <;> linarith

theorem shiftRight (represents : Represents em v) (n : Nat) : Represents (em >>> n) (v / 2 ^ n) := by
  change Represents (n.repeat ExtendedMantissa.shiftRightOne em) _
  induction n with
  | zero => simpa [Nat.repeat] using represents
  | succ n ih => simpa only [Nat.repeat, pow_succ, div_mul_eq_div_div] using ih.shiftRightOne

end Represents

/-! ### The last place -/

theorem targetExponent_eq (total : ℤ) : Format.binary64.targetExponent total = max (total - 53) (-1074) := rfl

theorem lastPlace_ge (q : ℚ) : -1074 ≤ lastPlace q := le_max_right _ _

variable {q : ℚ}

theorem div_lastPlace_lt (q : ℚ) : q / 2 ^ lastPlace q < 2 ^ 53 := by
  have size : q < 2 ^ (Int.log 2 q + 1) := by exact_mod_cast Int.lt_zpow_succ_log_self (by decide : 1 < 2) q
  rw [div_lt_iff₀ (by positivity), ← zpow_natCast, ← zpow_add₀ two_ne_zero]
  refine lt_of_lt_of_le size (zpow_le_zpow_right₀ one_le_two ?_)
  unfold lastPlace
  omega

section
variable (positive : 0 < q)
include positive

theorem le_div_lastPlace (normal : lastPlace q ≠ -1074) : 2 ^ 52 ≤ q / 2 ^ lastPlace q := by
  have size : (2 : ℚ) ^ Int.log 2 q ≤ q := by exact_mod_cast Int.zpow_log_le_self (by decide : 1 < 2) positive
  have place : lastPlace q = Int.log 2 q - 52 := by
    unfold lastPlace at normal ⊢
    omega
  rw [le_div_iff₀ (by positivity), ← zpow_natCast, ← zpow_add₀ two_ne_zero, place]
  simpa using size

theorem log_eq {a e : ℤ} (low : (2 : ℚ) ^ a ≤ q / 2 ^ e) (high : q / 2 ^ e < 2 ^ (a + 1)) :
    Int.log 2 q = a + e := by
  rw [le_div_iff₀ (by positivity), ← zpow_add₀ two_ne_zero] at low
  rw [div_lt_iff₀ (by positivity), ← zpow_add₀ two_ne_zero] at high
  apply le_antisymm
  · have := (Int.lt_zpow_iff_log_lt (by decide : 1 < 2) positive).mp (by exact_mod_cast high)
    omega
  · exact (Int.zpow_le_iff_le_log (by decide : 1 < 2) positive).mp (by exact_mod_cast low)

variable {m : Nat} {e : ℤ} {accuracy : Accuracy}

theorem targetExponent_eq_lastPlace (represents : Represents (.ofMantissaAndAccuracy m accuracy) (q / 2 ^ e))
    (fine : e ≤ lastPlace q) : Format.binary64.targetExponent (totalExponent m e) = lastPlace q := by
  obtain ⟨low, high⟩ := represents.bounds
  have mantissa : (ExtendedMantissa.ofMantissaAndAccuracy m accuracy).mantissa = m := by
    rcases accuracy with _ | _ | _ | _ <;> rfl
  rw [mantissa] at low high
  rw [targetExponent_eq]
  unfold lastPlace totalExponent at *
  rcases Nat.eq_zero_or_pos m with rfl | some
  · have below : Int.log 2 q < e := by
      apply (Int.lt_zpow_iff_log_lt (by decide : 1 < 2) positive).mp
      have : q / 2 ^ e < 1 := by simpa using high
      rw [div_lt_one (by positivity)] at this
      exact_mod_cast this
    simp only [Nat.log2_zero]
    omega
  · have log : Int.log 2 q = m.log2 + e := by
      apply log_eq positive
      · refine le_trans ?_ low
        exact_mod_cast Nat.log2_self_le some.ne'
      · refine lt_of_lt_of_le high ?_
        exact_mod_cast Nat.lt_log2_self
    omega

end

/-! ### Rounding of core -/

/-- A mantissa that has been rounded is shifted once more, if at all, and loses nothing then. -/
theorem shiftToTargetExponent_rounded {r : Nat} {t : ℤ} (bound : r ≤ 2 ^ 53) (low : -1074 ≤ t) :
    shiftToTargetExponent Format.binary64 r t .exact =
      if r < 2 ^ 53 then (⟨r, false, false⟩, t) else (⟨2 ^ 52, false, false⟩, t + 1) := by
  unfold shiftToTargetExponent totalExponent
  rw [targetExponent_eq]
  split_ifs with small
  · have log : r.log2 ≤ 52 := by
      rcases Nat.eq_zero_or_pos r with rfl | some
      · simp
      · have := (Nat.log2_lt some.ne').mpr small
        omega
    have still : (max (↑r.log2 + 1 + t - 53) (-1074) - t).toNat = 0 := by omega
    simp only [shiftToExponent, still, Nat.cast_zero, add_zero]
    rfl
  · obtain rfl : r = 2 ^ 53 := by omega
    have once : (max (↑(2 ^ 53 : Nat).log2 + 1 + t - 53) (-1074) - t).toNat = 1 := by
      rw [Nat.log2_two_pow]
      omega
    simp only [shiftToExponent, once, Nat.cast_one]
    rfl

theorem roundHalfEven_div_lastPlace_le (positive : 0 < q) : roundHalfEven (q / 2 ^ lastPlace q) ≤ 2 ^ 53 := by
  have floor : ⌊q / 2 ^ lastPlace q⌋₊ < 2 ^ 53 := by
    rw [Nat.floor_lt (by positivity)]
    exact_mod_cast div_lastPlace_lt q
  have := roundHalfEven_le (q / 2 ^ lastPlace q)
  omega

/-- Core rounds a mantissa with residual bits to the number nearest to the rational that they represent. -/
theorem roundWithAccuracy_eq_nearest (positive : 0 < q) {m : Nat} {e : ℤ} {accuracy : Accuracy}
    (represents : Represents (.ofMantissaAndAccuracy m accuracy) (q / 2 ^ e)) (fine : e ≤ lastPlace q) :
    roundWithAccuracy Format.binary64 .positive m e accuracy = nearest q := by
  have target := targetExponent_eq_lastPlace positive represents fine
  let shift := (lastPlace q - e).toNat
  have reached : e + shift = lastPlace q := by omega
  have scaled : q / 2 ^ e / 2 ^ shift = q / 2 ^ lastPlace q := by
    rw [div_div, ← zpow_natCast, ← zpow_add₀ two_ne_zero, reached]
  have rounded := (represents.shiftRight shift).roundedMantissa
  rw [scaled] at rounded
  have first : shiftToTargetExponent Format.binary64 m e accuracy =
      (ExtendedMantissa.ofMantissaAndAccuracy m accuracy >>> shift, lastPlace q) := by
    unfold shiftToTargetExponent
    rw [target]
    exact Prod.ext rfl reached
  let once := shiftToTargetExponent Format.binary64 m e accuracy
  let twice := shiftToTargetExponent Format.binary64 once.1.roundedMantissa once.2 .exact
  change ofParts twice.1.mantissa twice.2 = nearest q
  have second : twice = shiftToTargetExponent Format.binary64 (roundHalfEven (q / 2 ^ lastPlace q))
      (lastPlace q) .exact := by
    simp only [twice, once, first, rounded]
  rw [second, shiftToTargetExponent_rounded (roundHalfEven_div_lastPlace_le positive) (lastPlace_ge q)]
  unfold nearest
  dsimp only
  split_ifs <;> rfl

/-! ### Exact numbers -/

/-- The mantissa has no more digits than the format keeps, and no fewer unless the exponent is the least. -/
structure Canonical (m : Nat) (e : ℤ) : Prop where
  positive : 0 < m
  small : m < 2 ^ 53
  low : -1074 ≤ e
  normal : 2 ^ 52 ≤ m ∨ e = -1074

theorem lastPlace_mul {m : Nat} (positive : 0 < m) (e : ℤ) :
    lastPlace (m * 2 ^ e) = max (m.log2 + e - 52) (-1074) := by
  have value : (m : ℚ) * 2 ^ e / 2 ^ e = m := mul_div_cancel_right₀ _ (by positivity)
  unfold lastPlace
  rw [@log_eq (m * 2 ^ e) (by positivity) m.log2 e]
  · rw [value]
    exact_mod_cast Nat.log2_self_le positive.ne'
  · rw [value]
    exact_mod_cast Nat.lt_log2_self

namespace Canonical

variable {m : Nat} {e : ℤ} (canonical : Canonical m e)
include canonical

theorem lastPlace : lastPlace (m * 2 ^ e) = e := by
  rw [lastPlace_mul canonical.positive]
  have small := (Nat.log2_lt canonical.positive.ne').mpr canonical.small
  have low := canonical.low
  rcases canonical.normal with normal | least
  · have := (Nat.le_log2 canonical.positive.ne').mpr normal
    omega
  · omega

theorem nearest : nearest (m * 2 ^ e) = .finite .positive m e canonical.positive := by
  have value : (m : ℚ) * 2 ^ e / 2 ^ e = m := mul_div_cancel_right₀ _ (by positivity)
  unfold Binary64.nearest
  rw [canonical.lastPlace, value, roundHalfEven_natCast, if_pos canonical.small, ofParts_of_pos e]

end Canonical

/-- A number that takes no more digits than the format keeps is one of the format, unless it is too large. -/
theorem exists_canonical {a : Nat} {k : ℤ} (positive : 0 < a) (small : a < 2 ^ 53) (low : -1074 ≤ k) :
    ∃ m e, Canonical m e ∧ e ≤ k ∧ (m : ℚ) * 2 ^ e = a * 2 ^ k := by
  let q : ℚ := a * 2 ^ k
  have place : lastPlace q ≤ k := by
    have := (Nat.log2_lt positive.ne').mpr small
    rw [lastPlace_mul positive]
    omega
  let shift := (k - lastPlace q).toNat
  have value : ((a * 2 ^ shift : Nat) : ℚ) = q / 2 ^ lastPlace q := by
    rw [eq_div_iff (by positivity)]
    push_cast
    rw [mul_assoc, ← zpow_natCast, ← zpow_add₀ two_ne_zero]
    congr 2
    omega
  refine ⟨a * 2 ^ shift, lastPlace q, ⟨by positivity, ?_, lastPlace_ge q, ?_⟩, place, ?_⟩
  · have size := div_lastPlace_lt q
    rw [← value] at size
    exact_mod_cast size
  · by_cases least : lastPlace q = -1074
    · exact .inr least
    · have size := le_div_lastPlace (by positivity) least
      rw [← value] at size
      exact .inl (by exact_mod_cast size)
  · rw [value]
    exact div_mul_cancel₀ q (by positivity)

end LoxLang.Binary64
