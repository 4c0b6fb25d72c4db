import LoxLang.Proofs.Number.Shortest

/-! Whole numbers as `print` shows them. Below 10¹⁵ a whole number is shown by its own digits, without a search for
the shortest ones, and these are the digits that the search would find. The reason is that all whole numbers of this
size are numbers of the format: each is read as itself, so the search can find no other decimal on a grid of whole
numbers, and it comes to no finer one. -/
namespace LoxLang

namespace Binary64
open Float.Model (Format)
open Float.Model.UnpackedFloat

theorem value_of_ofParts_eq {m m' : Nat} {e e' : ℤ} (same : ofParts m e = ofParts m' e') :
    (m : ℚ) * 2 ^ e = m' * 2 ^ e' := by
  unfold ofParts at same
  split_ifs at same with none none' none'
  · rw [none, none', Nat.cast_zero, zero_mul, zero_mul]
  · cases same
    rfl

/-- Naturals that take no more digits than the format keeps are read as different numbers. -/
theorem natCast_of_nearest_eq {n n' : Nat} (small : n < 2 ^ 53) (small' : n' < 2 ^ 53)
    (same : Float.Model.pack (nearest n) = Float.Model.pack (nearest n')) : n = n' := by
  have unpacked (n : Nat) (small : n < 2 ^ 53) : ∃ (m : Nat) (e : ℤ), (m : ℚ) * 2 ^ e = n ∧
      (Float.Model.pack (nearest n)).unpack = ofParts m e := by
    rcases Nat.eq_zero_or_pos n with rfl | some
    · refine ⟨0, 0, by simp, ?_⟩
      rw [Nat.cast_zero, nearest_zero]
      rfl
    · obtain ⟨m, e, canonical, value, unpacked⟩ := @unpack_ofNat n 0 some small (by decide)
      rw [pow_zero, mul_one] at value unpacked
      refine ⟨m, e, value, ?_⟩
      rw [ofParts_of_pos e canonical.positive, ← unpacked, ← ofNat_eq_nearest some]
      rfl
  obtain ⟨m, e, value, unpack⟩ := unpacked n small
  obtain ⟨m', e', value', unpack'⟩ := unpacked n' small'
  have parts : ofParts m e = ofParts m' e' := by rw [← unpack, ← unpack', same]
  have equal := value_of_ofParts_eq parts
  rw [value, value'] at equal
  exact_mod_cast equal

end Binary64

namespace Decimal
open Binary64

/-! ### Digits -/

theorem toDigits_mul_pow {n : Nat} (some : 0 < n) (k : Nat) :
    Nat.toDigits 10 (n * 10 ^ k) = Nat.toDigits 10 n ++ List.replicate k '0' := by
  induction k with
  | zero => simp
  | succ k ih =>
    have shifted : n * 10 ^ (k + 1) = 10 * (n * 10 ^ k) + 0 := by ring
    rw [shifted, ← Nat.toDigits_append_toDigits (by decide) (by positivity) (by decide), ih, List.append_assoc,
      List.replicate_succ']
    rfl

theorem digitCount_mul_pow {n : Nat} (some : 0 < n) (k : Nat) : digitCount (n * 10 ^ k) = digitCount n + k := by
  unfold digitCount
  rw [toDigits_mul_pow some, List.length_append, List.length_replicate]

theorem digitCount_pos (n : Nat) : 0 < digitCount n := Nat.length_toDigits_pos

theorem digitCount_le {n k : Nat} (positive : 0 < k) (few : n < 10 ^ k) : digitCount n ≤ k :=
  (Nat.length_toDigits_le_iff (by decide) positive).mpr few

theorem pow_le_of_lt_digitCount {n k : Nat} (some : 0 < n) (below : k < digitCount n) : 10 ^ k ≤ n := by
  rcases Nat.eq_zero_or_pos k with rfl | positive
  · exact some
  · exact Nat.le_of_not_lt fun few => Nat.not_le_of_lt below (digitCount_le positive few)

/-! ### The search -/

variable {x : Float} {n : Nat}

theorem exact_exponent_le (x : Float) : (exact x).exponent ≤ 0 := by
  unfold exact ofBinary
  split_ifs with whole
  · exact le_rfl
  · exact le_of_not_ge whole

/-- The exact decimal of a whole number ends in zeros. -/
theorem exact_of_whole (value : (exact x).value = n) : ∃ k : Nat, exact x = ⟨n * 10 ^ k, -k⟩ := by
  obtain ⟨k, exponent⟩ : ∃ k : Nat, (exact x).exponent = -k :=
    ⟨(-(exact x).exponent).toNat, by have := exact_exponent_le x; omega⟩
  refine ⟨k, ?_⟩
  have digits : (exact x).digits = n * 10 ^ k := by
    unfold Decimal.value at value
    rw [exponent, zpow_neg, zpow_natCast, ← div_eq_mul_inv, div_eq_iff (by positivity)] at value
    exact_mod_cast value
  rw [← digits, ← exponent]

theorem nat_of_toFloat_eq {d d' : Decimal} {n' : Nat} (value : d.value = n) (value' : d'.value = n')
    (small : n < 2 ^ 53) (small' : n' < 2 ^ 53) (same : d.toFloat = d'.toFloat) : n = n' := by
  rw [toFloat_eq, toFloat_eq, value, value'] at same
  exact natCast_of_nearest_eq small small' (Float.ofModel.inj same)

theorem value_whole (c j : Nat) : value ⟨c, j⟩ = (c * 10 ^ j : Nat) := by
  unfold value
  rw [zpow_natCast]
  push_cast
  rfl

theorem neighbour?_ne_none (tie : Tie) {target : Float} {d : Decimal} {cut : Nat}
    (reads : toFloat ⟨d.digits / 10 ^ cut, d.exponent + cut⟩ = target) : neighbour? tie target d cut ≠ none := by
  unfold neighbour?
  dsimp only [Nat.pow_eq]
  split
  · split_ifs <;> cases tie <;> exact Option.some_ne_none _
  · exact Option.some_ne_none _
  · exact Option.some_ne_none _
  · next unread _ => exact absurd reads (of_decide_eq_false unread)

section
variable {tie : Tie} {target : Float} {k : Nat}

/-- Where only zeros are cut off, the digits that are left are found, if nothing else is. -/
theorem neighbour?_zeros (reads : toFloat ⟨n, 0⟩ = target) : neighbour? tie target ⟨n * 10 ^ k, -k⟩ k ≠ none := by
  apply neighbour?_ne_none
  dsimp only
  rw [Nat.mul_div_cancel _ (by positivity), neg_add_cancel, reads]

/-- A decimal that is found on a grid of whole numbers has the value of the number. -/
theorem value_of_neighbour? {found : Decimal} {j : Nat} (reads : toFloat ⟨n, 0⟩ = target) (few : 2 * n < 2 ^ 53)
    (coarse : 10 ^ j ≤ n) (search : neighbour? tie target ⟨n * 10 ^ k, -k⟩ (k + j) = some found) :
    found.exponent = j ∧ found.value = n := by
  obtain ⟨same, either⟩ := neighbour?_eq_some search
  have cut : n * 10 ^ k / 10 ^ (k + j) = n / 10 ^ j := by
    rw [pow_add, mul_comm n, Nat.mul_div_mul_left _ _ (by positivity)]
  have exponent : -(k : ℤ) + (k + j : Nat) = j := by
    push_cast
    ring
  rw [cut, exponent] at either
  have own : value ⟨n, (0 : Nat)⟩ = n := by rw [value_whole, pow_zero, mul_one]
  have equal {c : Nat} (small : c * 10 ^ j < 2 ^ 53) (whole : found = ⟨c, j⟩) : found.value = n := by
    have value : found.value = (c * 10 ^ j : Nat) := by rw [whole, value_whole]
    rw [value, nat_of_toFloat_eq value own small (by omega) (same.trans reads.symm)]
  have lower : n / 10 ^ j * 10 ^ j ≤ n := Nat.div_mul_le_self _ _
  obtain below | above := either
  · exact ⟨below ▸ rfl, equal (by omega) below⟩
  · refine ⟨above ▸ rfl, equal ?_ above⟩
    rw [add_mul, one_mul]
    omega

end

theorem findSome?_range_le {α : Type} {f : Nat → Option α} {size i : Nat} {found : α} (inside : i < size)
    (hit : f i ≠ none) (search : (List.range size).findSome? f = some found) : ∃ j ≤ i, f j = some found := by
  obtain ⟨before, j, behind, whole, here, missed⟩ := List.findSome?_eq_some_iff.mp search
  refine ⟨j, ?_, here⟩
  have ordered := @List.pairwise_lt_range size
  rw [whole, List.pairwise_append, List.pairwise_cons] at ordered
  have member : i ∈ before ++ j :: behind := whole ▸ List.mem_range.mpr inside
  rcases List.mem_append.mp member with earlier | later
  · exact absurd (missed i earlier) hit
  rcases List.mem_cons.mp later with rfl | later
  · exact le_rfl
  · exact (ordered.2.1.1 i later).le

theorem le_strip_exponent (fuel : Nat) (d : Decimal) : d.exponent ≤ (strip fuel d).exponent := by
  induction fuel generalizing d with
  | zero => exact le_rfl
  | succ fuel ih =>
    unfold strip
    split_ifs
    · exact le_trans (Int.le_add_one le_rfl) (ih _)
    · exact le_rfl

theorem normalize_whole {d : Decimal} (whole : 0 ≤ d.exponent) : 0 ≤ d.normalize.exponent := by
  unfold normalize
  split_ifs
  · exact le_rfl
  · exact whole.trans (le_strip_exponent _ d)

section
variable (finite : x.isFinite = true) (some : 0 < n) (few : n < 10 ^ 15) (value : (exact x).value = n)
include finite some few value

/-- What is found for a whole number is whole and has its value. -/
theorem shortest_whole (tie : Tie) : 0 ≤ (shortest tie x).exponent ∧ (shortest tie x).value = n := by
  obtain ⟨k, trailing⟩ := exact_of_whole value
  have reads : toFloat ⟨n, 0⟩ = x.abs := by
    rw [← exact_toFloat finite]
    apply toFloat_eq_of_value
    rw [value]
    exact (value_whole n 0).trans (by rw [pow_zero, mul_one])
  have positive := digitCount_pos n
  have short : digitCount n ≤ 15 := digitCount_le (by decide) few
  unfold shortest
  dsimp only
  rw [trailing, digitCount_mul_pow some]
  let found? (i : Nat) := neighbour? tie x.abs ⟨n * 10 ^ k, -k⟩ (digitCount n + k - (i + 1))
  -- after as many steps as there are digits the search is at the grid of ones
  have hit : found? (digitCount n - 1) ≠ none := by
    change neighbour? tie x.abs _ (digitCount n + k - (digitCount n - 1 + 1)) ≠ none
    rw [Nat.sub_add_cancel positive, Nat.add_sub_cancel_left]
    exact neighbour?_zeros reads
  cases search : List.findSome? found? (List.range 17) with
  | none => exact absurd (List.findSome?_eq_none_iff.mp search _ (List.mem_range.mpr (by omega))) hit
  | some found =>
    obtain ⟨i, before, here⟩ := findSome?_range_le (by omega) hit search
    have cut : digitCount n + k - (i + 1) = k + (digitCount n - (i + 1)) := by omega
    change neighbour? tie x.abs _ (digitCount n + k - (i + 1)) = _ at here
    rw [cut] at here
    obtain ⟨exponent, same⟩ :=
      value_of_neighbour? reads (by omega) (pow_le_of_lt_digitCount some (by omega)) here
    rw [Option.getD_some, normalize_value]
    exact ⟨normalize_whole (by omega), same⟩

theorem positional_whole (tie : Tie) : (shortest tie x).positional = toString n := by
  obtain ⟨whole, same⟩ := shortest_whole finite some few value tie
  generalize shortest tie x = d at whole same
  obtain ⟨c, e⟩ := d
  obtain ⟨j, rfl⟩ := Int.eq_ofNat_of_zero_le whole
  rw [value_whole] at same
  have digits : c * 10 ^ j = n := by exact_mod_cast same
  have positive : 0 < c := Nat.pos_of_mul_pos_right (digits ▸ some)
  unfold positional
  dsimp only
  rw [if_pos whole, Int.toNat_natCast, ← toDigits_mul_pow positive, digits, ← Nat.toString_eq_ofList_toDigits]

end

end Decimal

namespace Number
open Decimal Binary64

variable {x : Float} {n : Nat}

/-- A whole number of this size is between the bounds of positional notation, since its exponent is. -/
theorem positional_range (finite : x.isFinite = true) (some : 0 < n) (few : n < 10 ^ 15)
    (value : (exact x).value = n) : 1e-6 ≤ x.abs ∧ x.abs < 1e21 := by
  rw [exact, ofBinary_value] at value
  have canonical : Canonical (binaryParts x).1 (binaryParts x).2 := by
    refine (canonical_binaryParts x).resolve_left fun none => ?_
    rw [none, Nat.cast_zero, zero_mul] at value
    exact some.ne (by exact_mod_cast value)
  have place : (binaryParts x).2 = max ((n.log2 : ℤ) - 52) (-1074) := by
    have own := lastPlace_mul some 0
    rw [zpow_zero, mul_one, ← value, canonical.lastPlace] at own
    omega
  have small : n.log2 < 50 := (Nat.log2_lt some.ne').mpr (by omega)
  have unpacked : x.abs.toModel.unpack =
      .finite .positive (binaryParts x).1 (binaryParts x).2 canonical.positive := by
    rw [abs_eq_pack finite, ofParts_of_pos _ canonical.positive]
    exact canonical.unpack_pack (by omega)
  obtain ⟨_, positive, low⟩ : ∃ m positive, (1e-6 : Float).toModel.unpack = .finite .positive m (-72) positive :=
    ⟨_, by decide, rfl⟩
  obtain ⟨_, positive, high⟩ : ∃ m positive, (1e21 : Float).toModel.unpack = .finite .positive m 17 positive :=
    ⟨_, by decide, rfl⟩
  exact ⟨(compare_of_exponent low unpacked (by omega)).2, (compare_of_exponent unpacked high (by omega)).1⟩

theorem zero_of_exact (zero : (exact x).value = 0) : x = 0 ∨ x = -0.0 := by
  rw [exact, ofBinary_value] at zero
  have none : (binaryParts x).1 = 0 := by
    have := (mul_eq_zero.mp zero).resolve_right (by positivity)
    exact_mod_cast this
  have bits : x.toBits.toNat % 2 ^ 52 = 0 ∧ x.toBits.toNat / 2 ^ 52 % 2048 = 0 := by
    unfold binaryParts at none
    simp only [Nat.pow_eq] at none
    split_ifs at none with least
    · exact ⟨none, least⟩
    · omega
  have width := x.toBits.toNat_lt
  have either : x.toBits.toNat = 0 ∨ x.toBits.toNat = 2 ^ 63 := by omega
  refine either.imp (fun clear => ?_) fun set => ?_
  · exact toBits_injective (UInt64.toNat_inj.mp clear)
  · exact toBits_injective (UInt64.toNat_inj.mp set)

/-- The shortest decimal of a whole number below 10¹⁵ is written with the digits of the number. -/
theorem write_whole (finite : x.isFinite = true) (value : (exact x).value = n) (few : n < 10 ^ 15) :
    displayForm.write x = (if x < 0 then "-" else "") ++ toString n := by
  rcases Nat.eq_zero_or_pos n with rfl | some
  · obtain rfl | rfl := zero_of_exact (by exact_mod_cast value)
    · decide +kernel
    · decide +kernel
  · have positional : displayForm.isPositional x = true :=
      (isPositional_eq_true_iff x).mpr (.inr (positional_range finite some few value))
    rw [write_eq finite, magnitude_eq_ite, if_pos positional, positional_whole finite some few value]

theorem value_of_whole? (whole : whole? x = some n) : x.isFinite = true ∧ (exact x).value = n := by
  rw [exact, ofBinary_value]
  unfold whole? at whole
  generalize binaryParts x = parts at whole ⊢
  obtain ⟨m, e⟩ := parts
  simp only [Nat.pow_eq, Bool.not_eq_true'] at whole
  split_ifs at whole with infinite above divides
  · obtain ⟨k, rfl⟩ := Int.eq_ofNat_of_zero_le above
    obtain rfl := Option.some.inj whole
    refine ⟨by simpa using infinite, ?_⟩
    rw [Int.toNat_natCast, zpow_natCast]
    push_cast
    rfl
  · obtain ⟨k, rfl⟩ : ∃ k : Nat, e = -k := ⟨(-e).toNat, by omega⟩
    obtain rfl := Option.some.inj whole
    refine ⟨by simpa using infinite, ?_⟩
    rw [neg_neg, Int.toNat_natCast] at divides ⊢
    rw [zpow_neg, zpow_natCast, ← div_eq_mul_inv, Nat.cast_div (Nat.dvd_of_mod_eq_zero divides) (by positivity)]
    push_cast
    rfl

/-- The digits of a whole number are what the search for the shortest ones comes to, so every number is
shown in the one form. -/
theorem display_eq_write (x : Float) : display x = displayForm.write x := by
  unfold display
  split
  · next n whole =>
    obtain ⟨finite, value⟩ := value_of_whole? whole
    split
    · next few => exact (write_whole finite value few).symm
    · rfl
  · rfl

end Number

end LoxLang
