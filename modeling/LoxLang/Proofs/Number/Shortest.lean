import LoxLang.Proofs.Number.Reading

/-! The decimal that stands for a number. The decimal from which the search starts has the value of the number,
what the search finds is read as the number, and neither is changed by zeros at the end of the digits. So the
digits that are written for a number are read as its magnitude. -/
namespace LoxLang.Decimal
open Binary64

variable {x : Float}

theorem toFloat_eq_of_value {d d' : Decimal} (same : d.value = d'.value) : d.toFloat = d'.toFloat := by
  rw [toFloat_eq, toFloat_eq, same]

/-- The value of digits that are a multiple of a power of ten. -/
theorem value_mul_pow (n k : Nat) (e : ℤ) : value ⟨n * 10 ^ k, e⟩ = value ⟨n, e + k⟩ := by
  unfold value
  rw [zpow_add₀ (by norm_num), zpow_natCast]
  push_cast
  ring

theorem strip_value (fuel : Nat) (d : Decimal) : (strip fuel d).value = d.value := by
  induction fuel generalizing d with
  | zero => rfl
  | succ fuel ih =>
    unfold strip
    split_ifs with trailing
    · rw [ih, ← Nat.cast_one, ← value_mul_pow, pow_one, Nat.div_mul_cancel (Nat.dvd_of_mod_eq_zero trailing.2)]
    · rfl

theorem normalize_value (d : Decimal) : d.normalize.value = d.value := by
  unfold normalize
  split_ifs with none
  · simp [value, none]
  · exact strip_value _ d

theorem ofBinary_value (m : Nat) (e : ℤ) : (ofBinary m e).value = m * 2 ^ e := by
  unfold ofBinary value
  split_ifs with whole
  · obtain ⟨k, rfl⟩ := Int.eq_ofNat_of_zero_le whole
    simp
  · obtain ⟨k, rfl⟩ : ∃ k : Nat, e = -k := ⟨(-e).toNat, by omega⟩
    have halves : (5 : ℚ) ^ k * 10 ^ (-k : ℤ) = 2 ^ (-k : ℤ) := by
      rw [zpow_neg, zpow_neg, zpow_natCast, zpow_natCast, ← div_eq_mul_inv, ← div_pow, ← inv_pow]
      norm_num
    rw [neg_neg, Int.toNat_natCast, Nat.pow_eq, Nat.cast_mul, Nat.cast_pow, Nat.cast_ofNat, mul_assoc, halves]

/-- The exact decimal of a number is read as its magnitude. -/
theorem exact_toFloat (finite : x.isFinite = true) : (exact x).toFloat = x.abs := by
  rw [toFloat_eq, abs_eq_pack finite, exact, ofBinary_value]
  rcases canonical_binaryParts x with none | canonical
  · rw [none, Nat.cast_zero, zero_mul, nearest_zero]
    rfl
  · rw [canonical.nearest, ofParts_of_pos]

/-- What is found at a cut is read as the number that is searched for, and is one of the neighbours. -/
theorem neighbour?_eq_some {tie : Tie} {target : Float} {d found : Decimal} {cut : Nat}
    (search : neighbour? tie target d cut = some found) : found.toFloat = target ∧
      (found = ⟨d.digits / 10 ^ cut, d.exponent + cut⟩ ∨ found = ⟨d.digits / 10 ^ cut + 1, d.exponent + cut⟩) := by
  unfold neighbour? at search
  dsimp only [Nat.pow_eq] at search
  split at search
  · next below above =>
    have either : found = ⟨d.digits / 10 ^ cut, d.exponent + cut⟩ ∨
        found = ⟨d.digits / 10 ^ cut + 1, d.exponent + cut⟩ := by
      split_ifs at search
      · exact .inl (Option.some.inj search).symm
      · exact .inr (Option.some.inj search).symm
      · cases tie
        · exact .inr (Option.some.inj search).symm
        · exact .inl (Option.some.inj search).symm
      · cases tie <;> exact .inr (Option.some.inj search).symm
    obtain rfl | rfl := either
    · exact ⟨of_decide_eq_true below, .inl rfl⟩
    · exact ⟨of_decide_eq_true above, .inr rfl⟩
  · next below _ =>
    obtain rfl := Option.some.inj search
    exact ⟨of_decide_eq_true below, .inl rfl⟩
  · next _ above =>
    obtain rfl := Option.some.inj search
    exact ⟨of_decide_eq_true above, .inr rfl⟩
  · cases search

/-- The digits that are written for a number are read as its magnitude. -/
theorem shortest_toFloat (tie : Tie) (finite : x.isFinite = true) : (shortest tie x).toFloat = x.abs := by
  unfold shortest
  dsimp only
  rw [toFloat_eq_of_value (normalize_value _)]
  cases search : List.findSome? _ (List.range 17) with
  | none => exact exact_toFloat finite
  | some found =>
    obtain ⟨n, _, reads⟩ := List.exists_of_findSome?_eq_some search
    exact (neighbour?_eq_some reads).1

end LoxLang.Decimal
