import LoxLang.Decimal
import LoxLang.Proofs.Number.Display
import LoxLang.Proofs.Number.Rounding

/-! The fields of a binary64 number. A number that is finite is packed into a sign, an exponent and a fraction,
and there is one way to do it. What is packed is unpacked again, the magnitude of a number is that of its fields,
and these are the parts from which its exact decimal is made. -/
namespace LoxLang.Binary64
open Float.Model (Format)
open Float.Model.UnpackedFloat

/-- The magnitude with these fields: the hidden bit stands above the fraction, but for the least exponent. -/
def ofFields (biased : BitVec 11) (fraction : BitVec 52) : Float.Model.UnpackedFloat :=
  if biased = 0#11 then ofParts fraction.toNat (-1074)
  else ofParts (2 ^ 52 + fraction.toNat) (biased.toNat - 1075)

theorem toNat_append {v w : Nat} (high : BitVec v) (low : BitVec w) :
    (high ++ low).toNat = high.toNat * 2 ^ w + low.toNat := by
  rw [BitVec.toNat_append, ← Nat.shiftLeft_add_eq_or_of_lt low.isLt, Nat.shiftLeft_eq]

/-- The magnitude of a packed number that is finite is that of its fields. -/
theorem abs_unpack {b : BitVec 64} (bounded : @unpackExponent Format.binary64 b ≠ -1#11) :
    (unpack Format.binary64 b).abs = ofFields (@unpackExponent Format.binary64 b)
      (@unpackMantissa Format.binary64 b) := by
  unfold unpack ofFields
  dsimp only
  rw [if_neg bounded]
  split_ifs with least none
  · rw [none]
    rfl
  · have some : 0 < (@unpackMantissa Format.binary64 b).toNat := by
      simpa [BitVec.toNat_pos, BitVec.pos_iff_ne_zero] using none
    rw [ofParts_of_pos _ some]
    simp only [Float.Model.UnpackedFloat.abs, least]
    rfl
  · rw [ofParts_of_pos _ (by positivity)]
    simp only [Float.Model.UnpackedFloat.abs, toNat_append]
    rfl

theorem unpack_eq_abs {b : BitVec 64} (clear : @unpackSign Format.binary64 b = 0#1) :
    (unpack Format.binary64 b).abs = unpack Format.binary64 b := by
  have positive : Sign.ofBitVec (@unpackSign Format.binary64 b) = .positive := by
    rw [clear]
    rfl
  unfold unpack
  simp only [positive]
  split_ifs <;> rfl

/-- Unpacking a magnitude gives its fields. -/
theorem unpack_packComponents {biased : BitVec 11} (bounded : biased ≠ -1#11) (fraction : BitVec 52) :
    unpack Format.binary64 (packComponents Format.binary64 .positive biased fraction) = ofFields biased fraction := by
  have clear := unpackSign_packComponents Format.binary64 .positive biased fraction
  rw [← unpack_eq_abs clear, abs_unpack]
  · rw [unpackExponent_packComponents, unpackMantissa_packComponents]
  · rwa [unpackExponent_packComponents]

/-- A magnitude is packed into its fields. -/
theorem pack_ofFields {biased : BitVec 11} (bounded : biased ≠ -1#11) (fraction : BitVec 52) :
    pack Format.binary64 (ofFields biased fraction) = packComponents Format.binary64 .positive biased fraction := by
  have below : biased.toNat < 2047 := by
    have := biased.isLt
    have : biased.toNat ≠ 2047 := fun same => bounded (BitVec.eq_of_toNat_eq same)
    omega
  have narrow := fraction.isLt
  unfold ofFields
  split_ifs with least
  · subst least
    rcases Nat.eq_zero_or_pos fraction.toNat with none | some
    · obtain rfl : fraction = 0 := BitVec.eq_of_toNat_eq none
      rfl
    · rw [ofParts_of_pos _ some]
      have log : fraction.toNat.log2 < 52 := (Nat.log2_lt some.ne').mpr narrow
      have subnormal : fraction.toNat.log2 + 1 ≠ Format.binary64.mantissaBits := by
        simp only [Format.mantissaBits]
        omega
      unfold pack
      dsimp only
      rw [if_neg (by decide), if_neg subnormal, BitVec.ofNat_toNat, BitVec.setWidth_eq]
  · have some : 0 < 2 ^ 52 + fraction.toNat := by positivity
    rw [ofParts_of_pos _ some]
    have log : (2 ^ 52 + fraction.toNat).log2 = 52 := by
      apply le_antisymm
      · have := (Nat.log2_lt some.ne').mpr (by omega : 2 ^ 52 + fraction.toNat < 2 ^ 53)
        omega
      · exact (Nat.le_log2 some.ne').mpr (by omega)
    have exponent : ((biased.toNat : ℤ) - 1075 + Format.binary64.exponentBias +
        Format.binary64.mantissaBitsWithoutImplicit).toNat = biased.toNat := by
      simp only [Format.exponentBias]
      omega
    have visible : BitVec.ofNat 52 (2 ^ 52 + fraction.toNat) = fraction := by
      apply BitVec.eq_of_toNat_eq
      rw [BitVec.toNat_ofNat]
      omega
    unfold pack
    simp only [exponent, log]
    rw [if_neg (by omega), if_pos (show 52 + 1 = Format.binary64.mantissaBits from rfl), visible, BitVec.ofNat_toNat, BitVec.setWidth_eq]

/-- A number of the format has the fields of one that is finite, unless it is too large. -/
theorem Canonical.exists_fields {m : Nat} {e : ℤ} (canonical : Canonical m e) (fits : e ≤ 971) :
    ∃ biased fraction, biased ≠ -1#11 ∧ ofParts m e = ofFields biased fraction := by
  have small := canonical.small
  have low := canonical.low
  by_cases normal : 2 ^ 52 ≤ m
  · have biased : (BitVec.ofNat 11 (e + 1075).toNat).toNat = (e + 1075).toNat := by
      rw [BitVec.toNat_ofNat]
      omega
    have fraction : (BitVec.ofNat 52 (m - 2 ^ 52)).toNat = m - 2 ^ 52 := by
      rw [BitVec.toNat_ofNat]
      omega
    have mantissa : 2 ^ 52 + (m - 2 ^ 52) = m := by omega
    have exponent : ((e + 1075).toNat : ℤ) - 1075 = e := by omega
    have apart (other : BitVec 11) (differs : (e + 1075).toNat ≠ other.toNat) :
        BitVec.ofNat 11 (e + 1075).toNat ≠ other := by
      rintro rfl
      exact differs biased.symm
    refine ⟨.ofNat 11 (e + 1075).toNat, .ofNat 52 (m - 2 ^ 52), apart _ ?_, ?_⟩
    · rw [show (-1#11).toNat = 2047 from rfl]
      omega
    · unfold ofFields
      rw [if_neg (apart _ _), fraction, biased, mantissa, exponent]
      rw [BitVec.toNat_zero]
      omega
  · have least := canonical.normal.resolve_left normal
    have fraction : (BitVec.ofNat 52 m).toNat = m := by
      rw [BitVec.toNat_ofNat]
      omega
    refine ⟨0#11, .ofNat 52 m, by decide, ?_⟩
    unfold ofFields
    rw [if_pos rfl, fraction, least]

theorem Canonical.unpack_pack {m : Nat} {e : ℤ} (canonical : Canonical m e) (fits : e ≤ 971) :
    (Float.Model.pack (.finite .positive m e canonical.positive)).unpack =
      .finite .positive m e canonical.positive := by
  obtain ⟨biased, fraction, bounded, same⟩ := canonical.exists_fields fits
  rw [← ofParts_of_pos, same]
  change unpack Format.binary64 (pack Format.binary64 (ofFields biased fraction)) = _
  rw [pack_ofFields bounded, unpack_packComponents bounded]

/-! ### The parts of a number -/

variable {x : Float}

theorem bounded_of_finite (finite : x.isFinite = true) :
    @unpackExponent Format.binary64 x.toModel.toBits.toBitVec ≠ -1#11 := by
  intro unbounded
  unfold Float.isFinite Float.Model.isFinite Float.Model.unpack unpack at finite
  dsimp only at finite
  rw [if_pos unbounded] at finite
  split at finite <;> cases finite

theorem toNat_unpackMantissa (x : Float) :
    (@unpackMantissa Format.binary64 x.toModel.toBits.toBitVec).toNat = x.toBits.toNat % 2 ^ 52 := by
  simp [unpackMantissa, Float.toBits]

theorem toNat_unpackExponent (x : Float) :
    (@unpackExponent Format.binary64 x.toModel.toBits.toBitVec).toNat =
      x.toBits.toNat / 2 ^ 52 % 2048 := by
  simp [unpackExponent, Float.toBits, Nat.shiftRight_eq_div_pow]

/-- The exact decimal of a number is made from its fields. -/
theorem ofParts_binaryParts (x : Float) :
    ofParts (Decimal.binaryParts x).1 (Decimal.binaryParts x).2 =
      ofFields (@unpackExponent Format.binary64 x.toModel.toBits.toBitVec)
        (@unpackMantissa Format.binary64 x.toModel.toBits.toBitVec) := by
  have least : x.toBits.toNat / 2 ^ 52 % 2048 = 0 ↔
      @unpackExponent Format.binary64 x.toModel.toBits.toBitVec = 0#11 := by
    rw [← toNat_unpackExponent]
    exact ⟨fun none => BitVec.eq_of_toNat_eq none, congrArg BitVec.toNat⟩
  unfold Decimal.binaryParts ofFields
  rw [toNat_unpackMantissa, toNat_unpackExponent]
  simp only [Nat.pow_eq, least]
  split_ifs <;> rfl

/-- A finite number is zero, or its parts are those of the format. -/
theorem canonical_binaryParts (x : Float) :
    (Decimal.binaryParts x).1 = 0 ∨ Canonical (Decimal.binaryParts x).1 (Decimal.binaryParts x).2 := by
  have fraction : x.toBits.toNat % 2 ^ 52 < 2 ^ 52 := Nat.mod_lt _ (by positivity)
  unfold Decimal.binaryParts
  simp only [Nat.pow_eq]
  split_ifs
  · rcases Nat.eq_zero_or_pos (x.toBits.toNat % 2 ^ 52) with none | some
    · exact .inl none
    · exact .inr ⟨some, by omega, le_rfl, .inr rfl⟩
  · refine .inr ⟨by positivity, ?_, ?_, .inl ?_⟩ <;> simp only [Int.ofNat_eq_natCast] <;> omega

theorem abs_eq_pack (finite : x.isFinite = true) :
    x.abs = .ofModel (.pack (ofParts (Decimal.binaryParts x).1 (Decimal.binaryParts x).2)) := by
  have magnitude : x.toModel.unpack.abs = _ := abs_unpack (bounded_of_finite finite)
  rw [ofParts_binaryParts, ← magnitude]
  rfl

theorem packComponents_unpack {b : BitVec 64} (clear : @unpackSign Format.binary64 b = 0#1) :
    packComponents Format.binary64 .positive (unpackExponent b) (unpackMantissa b) = b := by
  apply BitVec.eq_of_toNat_eq
  have sign : b.toNat / 2 ^ 63 % 2 = 0 := by
    have bit := congrArg BitVec.toNat clear
    simpa [unpackSign, Nat.shiftRight_eq_div_pow] using bit
  have width := b.isLt
  change (0#1 ++ BitVec.extractLsb 62 52 b ++ BitVec.extractLsb 51 0 b).toNat = b.toNat
  rw [toNat_append, toNat_append]
  simp only [BitVec.extractLsb_toNat, Nat.shiftRight_eq_div_pow]
  norm_num
  omega

/-- The magnitude of a number whose sign bit is clear is the number. -/
theorem abs_eq_self (finite : x.isFinite = true)
    (clear : @unpackSign Format.binary64 x.toModel.toBits.toBitVec = 0#1) : x.abs = x := by
  have bounded := bounded_of_finite finite
  apply toBits_injective
  change UInt64.ofBitVec (pack Format.binary64 (unpack Format.binary64 x.toModel.toBits.toBitVec).abs) = _
  rw [abs_unpack bounded, pack_ofFields bounded, packComponents_unpack clear]
  rfl

theorem clear_of_pos (positive : 0 < x) :
    @unpackSign Format.binary64 x.toModel.toBits.toBitVec = 0#1 := by
  have less : (Float.Model.UnpackedFloat.zero .positive).lt (unpack Format.binary64 x.toModel.toBits.toBitVec) = true :=
    of_decide_eq_true (positive : (0 : Float).lt x = true)
  by_contra set
  have negative : Sign.ofBitVec (@unpackSign Format.binary64 x.toModel.toBits.toBitVec) = .negative :=
    if_neg set
  unfold unpack at less
  simp only [negative] at less
  split_ifs at less <;> cases less

theorem abs_of_nonneg (finite : x.isFinite = true) (nonneg : x = 0 ∨ 0 < x) : x.abs = x := by
  obtain rfl | positive := nonneg
  · decide +kernel
  · exact abs_eq_self finite (clear_of_pos positive)

theorem not_zero_of_pos (positive : 0 < x) : (x == 0) = false := by
  have less : (Float.Model.UnpackedFloat.zero .positive).compare x.toModel.unpack = some .lt :=
    beq_iff_eq.mp (of_decide_eq_true (positive : (0 : Float).lt x = true))
  rw [← Bool.not_eq_true]
  intro zero
  have same : x.toModel.unpack.compare (.zero .positive) = some .eq := beq_iff_eq.mp zero
  cases unpacked : x.toModel.unpack with
  | notANumber =>
    rw [unpacked] at less
    cases less
  | infinity sign =>
    rw [unpacked] at same
    cases sign <;> cases same
  | zero sign =>
    rw [unpacked] at less
    cases less
  | finite sign =>
    rw [unpacked] at same
    cases sign <;> cases same

/-! ### Order -/

section
variable {y : Float} {m m' : Nat} {e e' : ℤ} {positive : 0 < m} {positive' : 0 < m'}

/-- The number with the lesser exponent is less. -/
theorem compare_of_exponent (unpacked : x.toModel.unpack = .finite .positive m e positive)
    (unpacked' : y.toModel.unpack = .finite .positive m' e' positive') (less : e < e') : x < y ∧ x ≤ y := by
  have order : x.toModel.unpack.compare y.toModel.unpack = some .lt := by
    rw [unpacked, unpacked']
    have exponents : compare e e' = .lt := Int.compare_eq_lt.mpr less
    simp only [Float.Model.UnpackedFloat.compare, exponents]
    rfl
  constructor
  · have less : x.toModel.unpack.lt y.toModel.unpack = true := beq_iff_eq.mpr order
    exact decide_eq_true less
  · have le : x.toModel.unpack.le y.toModel.unpack = true := by
      unfold Float.Model.UnpackedFloat.le
      rw [order]
      rfl
    exact decide_eq_true le

end

end LoxLang.Binary64
