import LoxLang.Proofs.Number.Packing

/-! Reading a decimal. Core reads one by way of a product or a quotient, which it rounds once, or without any
computation if the exponent is extreme. All of these ways end at the number nearest to the value of the decimal,
so decimals of the same value are read alike, however their digits are written. -/
namespace LoxLang

namespace Binary64
open Float.Model (Format totalExponent)
open Float.Model.UnpackedFloat

/-! ### Products and quotients -/

variable {m₁ m₂ : Nat} {e₁ e₂ : ℤ}

theorem zpow_log2_le (some : 0 < m₁) (e : ℤ) : (2 : ℚ) ^ (m₁.log2 + e) ≤ m₁ * 2 ^ e := by
  rw [zpow_add₀ two_ne_zero]
  gcongr
  exact_mod_cast Nat.log2_self_le some.ne'

theorem lt_zpow_log2 (m : Nat) (e : ℤ) : (m : ℚ) * 2 ^ e < 2 ^ (m.log2 + 1 + e) := by
  rw [zpow_add₀ two_ne_zero]
  gcongr
  exact_mod_cast Nat.lt_log2_self

theorem mul_eq_nearest (some₁ : 0 < m₁) (some₂ : 0 < m₂)
    (fine : 52 ≤ (m₁ * m₂).log2 ∨ e₁ + e₂ ≤ -1074) :
    mul Format.binary64 (.finite .positive m₁ e₁ some₁) (.finite .positive m₂ e₂ some₂) =
      nearest (m₁ * 2 ^ e₁ * (m₂ * 2 ^ e₂)) := by
  have product : (m₁ : ℚ) * 2 ^ e₁ * (m₂ * 2 ^ e₂) = (m₁ * m₂ : Nat) * 2 ^ (e₁ + e₂) := by
    rw [zpow_add₀ two_ne_zero]
    push_cast
    ring
  rw [product]
  apply roundWithAccuracy_eq_nearest (by positivity)
  · rw [mul_div_cancel_right₀ _ (by positivity)]
    exact .exact (m₁ * m₂)
  · rw [lastPlace_mul (by positivity)]
    omega

theorem div_eq_nearest (some₁ : 0 < m₁) (some₂ : 0 < m₂) :
    div Format.binary64 (.finite .positive m₁ e₁ some₁) (.finite .positive m₂ e₂ some₂) =
      nearest (m₁ * 2 ^ e₁ / (m₂ * 2 ^ e₂)) := by
  let target := min (e₁ - e₂) (Format.binary64.targetExponent (totalExponent m₁ e₁ - totalExponent m₂ e₂))
  let shift := (e₁ - e₂ - target).toNat
  have reached : target + shift = e₁ - e₂ := by omega
  have quotient : (m₁ : ℚ) * 2 ^ e₁ / (m₂ * 2 ^ e₂) / 2 ^ target = (m₁ <<< shift : Nat) / m₂ := by
    have powers : (2 : ℚ) ^ e₁ = 2 ^ e₂ * 2 ^ target * 2 ^ shift := by
      rw [← zpow_natCast, ← zpow_add₀ two_ne_zero, ← zpow_add₀ two_ne_zero]
      congr 1
      omega
    rw [powers, Nat.shiftLeft_eq]
    push_cast
    field_simp
  apply roundWithAccuracy_eq_nearest (by positivity)
  · rw [quotient]
    exact .fraction (m₁ <<< shift) some₂
  · let q : ℚ := m₁ * 2 ^ e₁ / (m₂ * 2 ^ e₂)
    change target ≤ lastPlace q
    have size : (2 : ℚ) ^ (m₁.log2 + e₁ - (m₂.log2 + 1 + e₂)) ≤ q := by
      rw [zpow_sub₀ two_ne_zero]
      exact div_le_div₀ (by positivity) (zpow_log2_le some₁ e₁) (by positivity) (lt_zpow_log2 m₂ e₂).le
    have log : m₁.log2 + e₁ - (m₂.log2 + 1 + e₂) ≤ Int.log 2 q :=
      (Int.zpow_le_iff_le_log (by decide : 1 < 2) (by positivity)).mp (by exact_mod_cast size)
    have bound : target ≤ max (m₁.log2 + 1 + e₁ - (m₂.log2 + 1 + e₂) - 53) (-1074) := min_le_right _ _
    unfold lastPlace
    omega

theorem ofNat_eq_nearest {n : Nat} (some : 0 < n) : ofNat Format.binary64 n = nearest n := by
  have positive : compare (n : ℤ) 0 = .gt := Int.compare_eq_gt.mpr (by omega)
  let target := Format.binary64.targetExponent (totalExponent n 0)
  let shift := (0 - target).toNat
  have place : target = lastPlace n := by
    have same := lastPlace_mul some 0
    rw [zpow_zero, mul_one] at same
    rw [same]
    unfold target totalExponent
    rw [targetExponent_eq]
    omega
  have lifted : (n : ℚ) / 2 ^ (0 - shift : ℤ) = (n <<< shift : Nat) := by
    rw [zero_sub, zpow_neg, div_inv_eq_mul, zpow_natCast, Nat.shiftLeft_eq]
    push_cast
    rfl
  unfold ofNat ofInt Float.Model.UnpackedFloat.normalize
  rw [positive]
  change roundWithAccuracy Format.binary64 .positive (n <<< shift) (0 - shift) .exact = _
  apply roundWithAccuracy_eq_nearest (by positivity)
  · rw [lifted]
    exact .exact _
  · omega

/-! ### Extreme numbers -/

theorem pack_of_large {m : Nat} {e : ℤ} (some : 0 < m) (large : 972 ≤ e) :
    pack Format.binary64 (ofParts m e) = packedInfinity Format.binary64 .positive := by
  rw [ofParts_of_pos e some]
  have overflows : 2 ^ 11 ≤ (e + Format.binary64.exponentBias + 52).toNat + 1 := by
    simp only [Format.exponentBias]
    omega
  exact if_pos overflows

variable {q : ℚ}

theorem pack_nearest_of_large (large : 2 ^ (1024 : ℤ) ≤ q) :
    pack Format.binary64 (nearest q) = packedInfinity Format.binary64 .positive := by
  have positive : 0 < q := lt_of_lt_of_le (by positivity) large
  have log : 1024 ≤ Int.log 2 q :=
    (Int.zpow_le_iff_le_log (by decide : 1 < 2) positive).mp (by exact_mod_cast large)
  have place : 972 ≤ lastPlace q := by
    unfold lastPlace
    omega
  have some : 0 < roundHalfEven (q / 2 ^ lastPlace q) := by
    refine lt_of_lt_of_le (Nat.floor_pos.mpr ?_) (floor_le_roundHalfEven _)
    exact le_trans (by norm_num) (le_div_lastPlace positive (by omega))
  unfold nearest
  dsimp only
  split_ifs
  · exact pack_of_large some place
  · exact pack_of_large (by positivity) (by omega)

theorem nearest_of_small (positive : 0 < q) (small : q < 2 ^ (-1075 : ℤ)) : nearest q = .zero .positive := by
  have log : Int.log 2 q < -1075 :=
    (Int.lt_zpow_iff_log_lt (by decide : 1 < 2) positive).mp (by exact_mod_cast small)
  have place : lastPlace q = -1074 := by
    unfold lastPlace
    omega
  have half : q / 2 ^ (-1074 : ℤ) < 1 / 2 := by
    rw [div_lt_iff₀ (by positivity)]
    refine lt_of_lt_of_eq small ?_
    rw [show (-1075 : ℤ) = -1 + -1074 by norm_num, zpow_add₀ two_ne_zero]
    norm_num
  have none : ⌊q / 2 ^ (-1074 : ℤ)⌋₊ = 0 := Nat.floor_eq_zero.mpr (half.trans (by norm_num))
  have rounded : roundHalfEven (q / 2 ^ lastPlace q) = 0 := by
    unfold roundHalfEven
    rw [place, none, Nat.cast_zero, sub_zero, if_pos half]
  unfold nearest
  rw [rounded]
  rfl

theorem nearest_zero : nearest 0 = .zero .positive := by
  unfold nearest
  rw [zero_div, ← Nat.cast_zero, roundHalfEven_natCast]
  rfl

/-! ### Decimals -/

theorem zpow_ten_le {e : ℤ} (negative : e ≤ 0) : (10 : ℚ) ^ e ≤ 2 ^ e := by
  obtain ⟨k, rfl⟩ : ∃ k : Nat, e = -k := ⟨(-e).toNat, by omega⟩
  rw [zpow_neg, zpow_neg, zpow_natCast, zpow_natCast]
  gcongr
  norm_num

/-- Whichever way core reads `m · 10 ^ e`, it comes to the number nearest to it. -/
theorem pack_ofScientific (m : Nat) (e : ℤ) :
    pack Format.binary64 (ofScientific Format.binary64 m e) = pack Format.binary64 (nearest (m * 10 ^ e)) := by
  have limit : (2 : ℤ) ^ Format.binary64.exponentBits = 2048 := rfl
  unfold ofScientific
  split_ifs with none large small whole
  · rw [none, Nat.cast_zero, zero_mul, nearest_zero]
  · rw [limit] at large
    have one : (1 : ℚ) ≤ m := by exact_mod_cast Nat.pos_of_ne_zero none
    have size : (2 : ℚ) ^ (1024 : ℤ) ≤ m * 10 ^ e :=
      calc (2 : ℚ) ^ (1024 : ℤ) ≤ 10 ^ (1024 : ℤ) := zpow_le_zpow_left₀ (by norm_num) (by norm_num) (by norm_num)
        _ ≤ 10 ^ e := zpow_le_zpow_right₀ (by norm_num) (by omega)
        _ ≤ m * 10 ^ e := le_mul_of_one_le_left (by positivity) one
    rw [pack_nearest_of_large size]
    rfl
  · rw [limit] at small
    have some := Nat.pos_of_ne_zero none
    have size : (m : ℚ) * 10 ^ e < 2 ^ (-1075 : ℤ) :=
      calc (m : ℚ) * 10 ^ e ≤ m * 2 ^ e := by
            gcongr
            exact zpow_ten_le (by omega)
        _ < 2 ^ (m.log2 + 1 + e) := lt_zpow_log2 m e
        _ ≤ 2 ^ (-1075 : ℤ) := zpow_le_zpow_right₀ (by norm_num) (by omega)
    rw [nearest_of_small (by positivity) size]
  · have some := Nat.pos_of_ne_zero none
    obtain ⟨k, rfl⟩ := Int.eq_ofNat_of_zero_le whole
    have shifted : m <<< 53 = m * 2 ^ 53 := Nat.shiftLeft_eq m 53
    have many : 2 ^ 52 ≤ m <<< 53 * 10 ^ k := by
      rw [shifted]
      exact le_trans (by omega) (Nat.le_mul_of_pos_right _ (by positivity))
    have fine : 52 ≤ (m <<< 53 * 10 ^ k).log2 :=
      (Nat.le_log2 (Nat.ne_of_gt (lt_of_lt_of_le (by positivity) many))).mpr many
    have value : ((m <<< 53 : Nat) : ℚ) * 2 ^ (-53 : ℤ) * ((10 ^ k : Nat) * 2 ^ (0 : ℤ)) = m * 10 ^ (k : ℤ) := by
      have unit : (2 : ℚ) ^ 53 * 2 ^ (-53 : ℤ) = 1 := by norm_num
      rw [shifted, zpow_zero, mul_one, zpow_natCast, Nat.cast_mul, Nat.cast_pow, Nat.cast_pow, Nat.cast_ofNat,
        Nat.cast_ofNat, mul_assoc (m : ℚ), unit, mul_one]
    rw [← value]
    exact congrArg _ (mul_eq_nearest _ _ (.inl fine))
  · have value : (m : ℚ) * 2 ^ (0 : ℤ) / ((10 ^ (-e).toNat : Nat) * 2 ^ (0 : ℤ)) = m * 10 ^ e := by
      have power : (10 : ℚ) ^ e = (10 ^ (-e).toNat)⁻¹ := by
        rw [← zpow_natCast, ← zpow_neg]
        congr 1
        omega
      rw [power, zpow_zero, mul_one, mul_one]
      push_cast
      rfl
    rw [← value]
    exact congrArg _ (div_eq_nearest _ _)

theorem Canonical.fine (first : Canonical m₁ e₁) (second : Canonical m₂ e₂) :
    52 ≤ (m₁ * m₂).log2 ∨ e₁ + e₂ ≤ -1074 := by
  have some := Nat.mul_pos first.positive second.positive
  rcases first.normal with normal | least
  · exact .inl ((Nat.le_log2 some.ne').mpr (normal.trans (Nat.le_mul_of_pos_right _ second.positive)))
  rcases second.normal with normal | least'
  · exact .inl ((Nat.le_log2 some.ne').mpr (normal.trans (Nat.le_mul_of_pos_left _ first.positive)))
  · omega

/-- A natural that takes no more digits than the format keeps is unpacked as it is. -/
theorem unpack_ofNat {a k : Nat} (some : 0 < a) (small : a < 2 ^ 53) (fits : k ≤ 971) :
    ∃ m e, ∃ canonical : Canonical m e, (m : ℚ) * 2 ^ e = (a * 2 ^ k : Nat) ∧
      (Float.Model.ofNat (a * 2 ^ k)).unpack = .finite .positive m e canonical.positive := by
  obtain ⟨m, e, canonical, below, value⟩ := @exists_canonical a k some small (by omega)
  rw [zpow_natCast] at value
  have same : (m : ℚ) * 2 ^ e = (a * 2 ^ k : Nat) := by
    rw [value]
    push_cast
    rfl
  refine ⟨m, e, canonical, same, ?_⟩
  unfold Float.Model.ofNat
  rw [ofNat_eq_nearest (by positivity), ← same, canonical.nearest]
  exact canonical.unpack_pack (by omega)

theorem exactlyRepresentablePowersOfTen_eq : ∀ e : Fin 23,
    Float.exactlyRepresentablePowersOfTen[e] = .ofModel (.ofNat (10 ^ e.val)) := by
  intro e
  apply toBits_injective
  revert e
  decide +kernel

/-- The powers of ten up to the 22nd are numbers of the format. -/
theorem unpack_powerOfTen {k : Nat} (fits : k ≤ 22) :
    ∃ m e, ∃ canonical : Canonical m e, (m : ℚ) * 2 ^ e = 10 ^ k ∧
      (Float.Model.ofNat (10 ^ k)).unpack = .finite .positive m e canonical.positive := by
  have power : 10 ^ k = 5 ^ k * 2 ^ k := by rw [← Nat.mul_pow]
  have small : 5 ^ k < 2 ^ 53 := lt_of_le_of_lt (Nat.pow_le_pow_right (by decide) fits) (by decide)
  obtain ⟨m, e, canonical, value, unpacked⟩ := @unpack_ofNat (5 ^ k) k (by positivity) small (by omega)
  rw [← power] at value unpacked
  exact ⟨m, e, canonical, by exact_mod_cast value, unpacked⟩

section
variable {n k : Nat} (small : n < 2 ^ 53) (fits : k ≤ 22)
include small fits

theorem ofNat_mul_powerOfTen :
    Float.Model.ofNat n * Float.Model.ofNat (10 ^ k) = .pack (nearest (n * 10 ^ k)) := by
  obtain ⟨m₂, e₂, second, value₂, unpacked₂⟩ := unpack_powerOfTen fits
  change Float.Model.pack (mul Format.binary64 _ _) = _
  rw [unpacked₂]
  rcases Nat.eq_zero_or_pos n with rfl | some
  · rw [Nat.cast_zero, zero_mul, nearest_zero]
    rfl
  · obtain ⟨m₁, e₁, first, value₁, unpacked₁⟩ := @unpack_ofNat n 0 some small (by decide)
    rw [pow_zero, mul_one] at value₁ unpacked₁
    rw [unpacked₁, mul_eq_nearest _ _ (first.fine second), value₁, value₂]

theorem ofNat_div_powerOfTen :
    Float.Model.ofNat n / Float.Model.ofNat (10 ^ k) = .pack (nearest (n / 10 ^ k)) := by
  obtain ⟨m₂, e₂, second, value₂, unpacked₂⟩ := unpack_powerOfTen fits
  change Float.Model.pack (div Format.binary64 _ _) = _
  rw [unpacked₂]
  rcases Nat.eq_zero_or_pos n with rfl | some
  · rw [Nat.cast_zero, zero_div, nearest_zero]
    rfl
  · obtain ⟨m₁, e₁, first, value₁, unpacked₁⟩ := @unpack_ofNat n 0 some small (by decide)
    rw [pow_zero, mul_one] at value₁ unpacked₁
    rw [unpacked₁, div_eq_nearest, value₁, value₂]

end

theorem toFloat_toUInt64 {n : Nat} (small : n < 2 ^ 53) : n.toUInt64.toFloat = .ofModel (.ofNat n) := by
  have same : n.toUInt64.toNat = n := Nat.mod_eq_of_lt (by omega)
  change Float.ofModel (.ofNat n.toUInt64.toNat) = _
  rw [same]

/-- A scientific literal is the number nearest to what it denotes. -/
theorem ofScientific_eq (n : Nat) (below : Bool) (k : Nat) :
    Float.ofScientific n below k = .ofModel (.pack (nearest (n * 10 ^ (if below then -(k : ℤ) else k)))) := by
  unfold Float.ofScientific
  split_ifs with exact down down
  · have entry := exactlyRepresentablePowersOfTen_eq ⟨k, Nat.lt_succ_of_le exact.2⟩
    rw [Fin.getElem_fin] at entry
    rw [toFloat_toUInt64 exact.1, entry, zpow_neg, zpow_natCast, ← div_eq_mul_inv,
      ← ofNat_div_powerOfTen exact.1 exact.2]
    rfl
  · have entry := exactlyRepresentablePowersOfTen_eq ⟨k, Nat.lt_succ_of_le exact.2⟩
    rw [Fin.getElem_fin] at entry
    rw [toFloat_toUInt64 exact.1, entry, zpow_natCast, ← ofNat_mul_powerOfTen exact.1 exact.2]
    rfl
  · have negated : Int.negOfNat k = -k := Int.negOfNat_eq
    simp only [Float.Model.ofScientific, Float.Model.pack, pack_ofScientific, negated]
  · simp only [Float.Model.ofScientific, Float.Model.pack, pack_ofScientific, Int.ofNat_eq_natCast]

end Binary64

namespace Decimal
open Binary64 Float.Model.UnpackedFloat

/-- The rational that a decimal stands for. -/
def value (d : Decimal) : ℚ := d.digits * 10 ^ d.exponent

/-- A decimal is read as the number nearest to its value. -/
theorem toFloat_eq (d : Decimal) : d.toFloat = .ofModel (.pack (nearest d.value)) := by
  have exponent : (if decide (d.exponent < 0) then -(d.exponent.natAbs : ℤ) else d.exponent.natAbs) = d.exponent := by
    split_ifs with below <;> rw [decide_eq_true_iff] at below <;> omega
  unfold toFloat value
  rw [ofScientific_eq, exponent]

end Decimal

end LoxLang
