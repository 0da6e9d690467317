/-
# Numbers that are integers

Numbers compute exactly with integers as long as these are not too large: sums are exact up to
`2 ^ 53`, and comparisons are those of the integers.

A number is taken apart into sign, mantissa and exponent.  A mantissa of 53 binary digits, the first
of which is a one, is *full*; a number with a full mantissa is its own rounding (`round_eq`), and
every integer up to `2 ^ 53` but zero has a full mantissa (`exists_full`).
-/
import Mathlib

namespace Lox.Decimal

open Float.Model Float.Model.UnpackedFloat

/-! ## 1. Mantissas

A mantissa is full if it uses all digits that there are. -/

/-- A mantissa of 53 digits without a leading zero. -/
structure Full (mantissa : Nat) : Prop where
  le : 2 ^ 52 ≤ mantissa
  lt : mantissa < 2 ^ 53

namespace Full

variable {m m' : Nat} {e e' : Int}

/-- A full mantissa has its first digit at the same place. -/
theorem log2 (full : Full m) : m.log2 = 52 :=
  (Nat.log2_eq_iff (Nat.ne_of_gt (Nat.lt_of_lt_of_le (by decide) full.le))).2 ⟨full.le, full.lt⟩

theorem pos (full : Full m) : 0 < m := Nat.lt_of_lt_of_le (by decide) full.le

/-- The exponent of a number with a full mantissa. -/
theorem bounds (full : Full m) :
    (2 : ℚ) ^ (52 + e) ≤ m * 2 ^ e ∧ (m : ℚ) * 2 ^ e < 2 ^ (53 + e) := by
  have pos : (0 : ℚ) < 2 ^ e := by positivity
  have le : (2 : ℚ) ^ (52 : ℤ) ≤ m := by exact_mod_cast full.le
  have lt : (m : ℚ) < 2 ^ (53 : ℤ) := by exact_mod_cast full.lt
  constructor
  · rw [zpow_add₀ two_ne_zero]
    exact mul_le_mul_of_nonneg_right le pos.le
  · rw [zpow_add₀ two_ne_zero]
    exact mul_lt_mul_of_pos_right lt pos

/-- Of two numbers with full mantissas the smaller one has the smaller exponent, or the same
exponent and the smaller mantissa. -/
theorem lt_iff (full : Full m) (full' : Full m') :
    (m : ℚ) * 2 ^ e < m' * 2 ^ e' ↔ e < e' ∨ e = e' ∧ m < m' := by
  have one : (1 : ℚ) < 2 := by norm_num
  rcases lt_trichotomy e e' with lt | rfl | gt
  · refine iff_of_true ?_ (.inl lt)
    calc (m : ℚ) * 2 ^ e < 2 ^ (53 + e) := full.bounds.2
      _ ≤ 2 ^ (52 + e') := (zpow_le_zpow_iff_right₀ one).2 (by omega)
      _ ≤ m' * 2 ^ e' := full'.bounds.1
  · have pos : (0 : ℚ) < 2 ^ e := by positivity
    rw [mul_lt_mul_iff_left₀ pos, Nat.cast_lt]
    simp
  · refine iff_of_false (not_lt.2 ?_) (by omega)
    calc (m' : ℚ) * 2 ^ e' ≤ 2 ^ (53 + e') := full'.bounds.2.le
      _ ≤ 2 ^ (52 + e) := (zpow_le_zpow_iff_right₀ one).2 (by omega)
      _ ≤ m * 2 ^ e := full.bounds.1

end Full

/-! ## 2. Rounding

What has no more digits than there are is its own rounding. -/

/-- A shift that drops noughts loses nothing. -/
theorem shiftRight_exact (m n : Nat) :
    (ExtendedMantissa.mk (m * 2 ^ n) false false) >>> n = ⟨m, false, false⟩ := by
  induction n generalizing m with
  | zero => simp [HShiftRight.hShiftRight, Nat.repeat]
  | succ n ih =>
    have step : ∀ em : ExtendedMantissa, em >>> (n + 1) = (em >>> n).shiftRightOne := fun _ => rfl
    rw [step, Nat.pow_succ, Nat.mul_comm (2 ^ n) 2, ← Nat.mul_assoc, ih]
    simp [ExtendedMantissa.shiftRightOne]

/-- A full mantissa that has been shifted to the left is shifted back. -/
theorem shiftToTargetExponent_eq {m : Nat} {e : Int} (full : Full m) (least : -1074 ≤ e) (n : Nat) :
    shiftToTargetExponent Format.binary64 (m * 2 ^ n) (e - n) .exact =
      (⟨m, false, false⟩, e) := by
  have digits : (m * 2 ^ n).log2 = 52 + n := by
    refine (Nat.log2_eq_iff (Nat.mul_pos full.pos (Nat.two_pow_pos n)).ne').2 ⟨?_, ?_⟩
    · rw [Nat.pow_add]
      exact Nat.mul_le_mul_right _ full.le
    · rw [Nat.add_right_comm, Nat.pow_add]
      exact Nat.mul_lt_mul_of_pos_right full.lt (Nat.two_pow_pos n)
  have target : Format.binary64.targetExponent (totalExponent (m * 2 ^ n) (e - n)) = e := by
    simp only [Format.targetExponent, totalExponent, digits, Format.mantissaBits,
      Format.minExponent]
    push_cast
    omega
  have amount : (e - (e - n)).toNat = n := by omega
  unfold shiftToTargetExponent shiftToExponent
  rw [target]
  simp only [amount, ExtendedMantissa.ofMantissaAndAccuracy, shiftRight_exact]
  rw [Int.sub_add_cancel]

/-- The first digit of a number that has a full mantissa. -/
theorem log2_eq {k m : Nat} {e t : Int} (full : Full m) (same : (k : ℚ) * 2 ^ e = m * 2 ^ t) :
    (k.log2 : ℤ) + e = 52 + t := by
  have one : (1 : ℚ) < 2 := by norm_num
  have scale : (0 : ℚ) < 2 ^ e := by positivity
  have nonzero : k ≠ 0 := by
    rintro rfl
    have pos : (0 : ℚ) < m * 2 ^ t := mul_pos (by exact_mod_cast full.pos) (by positivity)
    rw [← same] at pos
    simp at pos
  have least : (2 : ℚ) ^ (k.log2 + e) ≤ k * 2 ^ e := by
    rw [zpow_add₀ two_ne_zero, zpow_natCast]
    exact mul_le_mul_of_nonneg_right (by exact_mod_cast Nat.log2_self_le nonzero) scale.le
  have most : (k : ℚ) * 2 ^ e < 2 ^ (k.log2 + 1 + e) := by
    rw [zpow_add₀ two_ne_zero, show (k.log2 : ℤ) + 1 = (k.log2 + 1 : ℕ) by push_cast; rfl,
      zpow_natCast]
    exact mul_lt_mul_of_pos_right (by exact_mod_cast Nat.lt_log2_self) scale
  rw [same] at least most
  have below := (zpow_lt_zpow_iff_right₀ one).1 (lt_of_le_of_lt least full.bounds.2)
  have above := (zpow_lt_zpow_iff_right₀ one).1 (lt_of_le_of_lt full.bounds.1 most)
  omega

/-- A number that has a full mantissa, in the form in which it is rounded. -/
theorem decreaseExponent_eq {k m : Nat} {e t : Int} (same : (k : ℚ) * 2 ^ e = m * 2 ^ t) :
    ∃ n : Nat, decreaseExponent k e t = (m * 2 ^ n, t - n) := by
  refine ⟨(t - e).toNat, ?_⟩
  unfold decreaseExponent
  refine Prod.ext ?_ (by simp only; omega)
  have exact : (k : ℚ) * 2 ^ (e - t).toNat = m * 2 ^ (t - e).toNat := by
    rw [← zpow_natCast, ← zpow_natCast]
    rcases le_total t e with le | le
    · rw [Int.toNat_of_nonneg (by omega), Int.toNat_of_nonpos (by omega), zpow_sub₀ two_ne_zero,
        ← mul_div_assoc, same]
      field_simp
      simp
    · rw [Int.toNat_of_nonpos (by omega), Int.toNat_of_nonneg (by omega), zpow_sub₀ two_ne_zero,
        ← mul_div_assoc, ← same]
      field_simp
      simp
  simp only [Nat.shiftLeft_eq]
  exact_mod_cast exact

/-- A number with a full mantissa is its own rounding. -/
theorem round_eq {k m : Nat} {e t : Int} (full : Full m) (least : -1074 ≤ t)
    (same : (k : ℚ) * 2 ^ e = m * 2 ^ t) (sign : Sign) :
    UnpackedFloat.round Format.binary64 sign k e = .finite sign m t full.pos := by
  have target : Format.binary64.targetExponent (totalExponent k e) = t := by
    have digits := log2_eq full same
    simp only [Format.targetExponent, totalExponent, Format.mantissaBits, Format.minExponent]
    push_cast
    omega
  obtain ⟨n, shifted⟩ := decreaseExponent_eq same
  have again := shiftToTargetExponent_eq full least 0
  simp only [Nat.pow_zero, Nat.mul_one, Nat.cast_zero, sub_zero] at again
  unfold UnpackedFloat.round roundWithAccuracy
  simp only [target, shifted, shiftToTargetExponent_eq full least n,
    ExtendedMantissa.roundedMantissa, ExtendedMantissa.accuracy, Accuracy.roundToNearestEven, again,
    dif_neg (Nat.ne_of_gt full.pos)]

/-! ## 3. Numbers taken apart and put together

The fields of a number, read back one by one. -/

/-- The leading one is not stored. -/
theorem toNat_leadingOne (fraction : BitVec 52) :
    (1#1 ++ fraction).toNat = 2 ^ 52 + fraction.toNat := by
  rw [BitVec.toNat_append, ← Nat.shiftLeft_add_eq_or_of_lt fraction.isLt]
  rfl

/-- A number with a full mantissa is kept as it is. -/
theorem unpack_pack {m : Nat} {e : Int} (full : Full m) (least : -1074 ≤ e) (most : e ≤ 971)
    (sign : Sign) :
    (Float.Model.pack (.finite sign m e full.pos)).unpack = .finite sign m e full.pos := by
  obtain ⟨biased, rfl⟩ : ∃ biased : Nat, e = (biased : ℤ) - 1075 := ⟨(e + 1075).toNat, by omega⟩
  have packed : UnpackedFloat.pack Format.binary64 (.finite sign m (biased - 1075) full.pos) =
      packComponents Format.binary64 sign (BitVec.ofNat 11 biased) (BitVec.ofNat 52 m) := by
    have kept : ((biased : ℤ) - 1075 + (Format.exponentBias Format.binary64 : ℕ) + (52 : ℕ)).toNat =
        biased := by
      rw [show Format.exponentBias Format.binary64 = 1023 from rfl]
      omega
    unfold UnpackedFloat.pack
    dsimp only
    rw [kept, if_neg (by omega), if_pos (by rw [full.log2]; rfl)]
  have exponent : (BitVec.ofNat 11 biased).toNat = biased := by
    rw [BitVec.toNat_ofNat, Nat.mod_eq_of_lt (by omega)]
  have mantissa : (1#1 ++ BitVec.ofNat 52 m).toNat = m := by
    have lt := full.lt
    have le := full.le
    rw [toNat_leadingOne, BitVec.toNat_ofNat]
    omega
  unfold Float.Model.unpack Float.Model.pack
  simp only [packed]
  unfold UnpackedFloat.unpack
  simp only [unpackExponent_packComponents, unpackMantissa_packComponents,
    unpackSign_packComponents, Sign.ofBitVec_toBitVec]
  have notLast : BitVec.ofNat 11 biased ≠ -1#11 := by
    intro same
    have numbers := exponent.symm.trans (congrArg BitVec.toNat same)
    rw [show (-1#11).toNat = 2047 from rfl] at numbers
    omega
  have nonzero : BitVec.ofNat 11 biased ≠ 0#11 := by
    intro same
    have numbers := exponent.symm.trans (congrArg BitVec.toNat same)
    rw [show (0#11).toNat = 0 from rfl] at numbers
    omega
  rw [if_neg notLast, if_neg nonzero]
  simp only [mantissa, exponent]
  rfl

/-- The mantissa of a finite number is full, if the number is not a very small one. -/
theorem full_of_unpack {x : Float.Model} {sign : Sign} {m : Nat} {e : Int} {pos : 0 < m}
    (found : x.unpack = .finite sign m e pos) :
    -1074 ≤ e ∧ (Full m ∨ m < 2 ^ 52 ∧ e = -1074) := by
  have bias : (Format.exponentBias Format.binary64 : ℤ) + (52 : ℕ) = 1075 := rfl
  revert found
  unfold Float.Model.unpack
  fun_cases UnpackedFloat.unpack with
  | case1 | case2 | case3 => exact fun found => by cases found
  | case4 fraction vec exponent signVec sign' notLast zero nonzero =>
    intro found
    simp only [finite.injEq] at found
    obtain ⟨-, rfl, rfl⟩ := found
    have least : exponent + 1 = -1074 := by
      simp only [exponent, zero, bias]
      rfl
    exact ⟨least.ge, .inr ⟨fraction.isLt, least⟩⟩
  | case5 fraction vec exponent signVec sign' notLast nonzero =>
    intro found
    simp only [finite.injEq] at found
    obtain ⟨-, rfl, rfl⟩ := found
    have positive : vec.toNat ≠ 0 := fun zero => nonzero (BitVec.eq_of_toNat_eq zero)
    have lt := fraction.isLt
    refine ⟨?_, .inl ⟨?_, ?_⟩⟩
    · simp only [exponent, bias]
      omega
    · rw [toNat_leadingOne]
      exact Nat.le_add_right _ _
    · rw [toNat_leadingOne]
      exact Nat.add_lt_add_left lt _

/-! ## 4. Integers

An integer is written with a full mantissa by shifting it. -/

/-- An unpacked number is an integer; zero has two signs. -/
def Equals : UnpackedFloat → Int → Prop
  | .zero _, n => n = 0
  | .finite sign mantissa exponent _, n =>
    ((sign.apply mantissa : ℤ) : ℚ) * 2 ^ exponent = n
  | .infinity _, _ | .notANumber, _ => False

/-- A number is an integer; zero has two signs. -/
def IsInteger (x : Float) (n : Int) : Prop := Equals x.toModel.unpack n

/-- The integers between which numbers compute exactly. -/
def Small (n : Int) : Prop := |n| ≤ 2 ^ 53

/-- How an integer that is small is kept. -/
inductive Kept : UnpackedFloat → Int → Prop
  | zero (sign : Sign) : Kept (.zero sign) 0
  | finite {sign : Sign} {m : Nat} {e n : Int} (full : Full m) (least : -1074 ≤ e) (most : e ≤ 1)
      (value : ((sign.apply m : ℤ) : ℚ) * 2 ^ e = n) : Kept (.finite sign m e full.pos) n

/-- A number that is kept exactly equals its integer. -/
theorem Kept.equals {u : UnpackedFloat} {n : Int} (h : Kept u n) : Equals u n := by
  cases h with
  | zero sign => exact rfl
  | finite full least most value => exact value

/-- The size of a number with a sign. -/
theorem natCast_mul_eq_abs {sign : Sign} {m : Nat} {e n : Int}
    (value : ((sign.apply m : ℤ) : ℚ) * 2 ^ e = n) : (m : ℚ) * 2 ^ e = (|n| : ℤ) := by
  have scale : (0 : ℚ) < 2 ^ e := by positivity
  have size : |((sign.apply m : ℤ) : ℚ)| = m := by
    cases sign <;> simp [Sign.apply]
  rw [Int.cast_abs, ← value, abs_mul, size, abs_of_pos scale]

/-- A small integer is kept with a full mantissa. -/
theorem IsInteger.kept {x : Float} {n : Int} (h : IsInteger x n) (small : Small n) :
    Kept x.toModel.unpack n := by
  unfold IsInteger at h
  generalize found : x.toModel.unpack = u at h
  cases u with
  | infinity sign => exact h.elim
  | notANumber => exact h.elim
  | zero sign =>
    cases h
    exact .zero sign
  | finite sign m e pos =>
    have one : (1 : ℚ) < 2 := by norm_num
    have size := natCast_mul_eq_abs h
    have scale : (0 : ℚ) < 2 ^ e := by positivity
    obtain ⟨least, full | ⟨tiny, rfl⟩⟩ := full_of_unpack found
    · refine .finite full least ?_ h
      have most : (2 : ℚ) ^ (52 + e) ≤ 2 ^ (53 : ℤ) :=
        calc (2 : ℚ) ^ (52 + e) ≤ m * 2 ^ e := full.bounds.1
          _ = (|n| : ℤ) := size
          _ ≤ 2 ^ (53 : ℤ) := by exact_mod_cast small
      have exponents := (zpow_le_zpow_iff_right₀ one).1 most
      omega
    · -- an integer that is nearer to zero than one
      have lt : ((|n| : ℤ) : ℚ) < (1 : ℤ) :=
        calc ((|n| : ℤ) : ℚ) = m * 2 ^ (-1074 : ℤ) := size.symm
          _ < 2 ^ (52 : ℤ) * 2 ^ (-1074 : ℤ) :=
            mul_lt_mul_of_pos_right (by exact_mod_cast tiny) scale
          _ ≤ (1 : ℤ) := by
            rw [← zpow_add₀ two_ne_zero, Int.cast_one]
            exact zpow_le_one_of_nonpos₀ one.le (by norm_num)
      have zero : |n| = 0 := by
        have := abs_nonneg n
        have := Int.cast_lt.1 lt
        omega
      rw [zero, Int.cast_zero] at size
      have positive : (0 : ℚ) < m * 2 ^ (-1074 : ℤ) := mul_pos (by exact_mod_cast pos) scale
      exact absurd size positive.ne'

/-- What is kept as an integer is the same once it has been put together. -/
theorem Kept.unpack_pack {u : UnpackedFloat} {n : Int} (h : Kept u n) :
    (Float.Model.pack u).unpack = u := by
  cases h with
  | zero sign => exact unpack_packedZero
  | finite full least most value => exact Decimal.unpack_pack full least (by omega) _

/-- Every small integer but zero has a full mantissa. -/
theorem exists_full {k : Nat} (pos : 0 < k) (small : k ≤ 2 ^ 53) :
    ∃ (m : ℕ) (e : ℤ), Full m ∧ -1074 ≤ e ∧ e ≤ 1 ∧ (k : ℚ) = m * 2 ^ e := by
  obtain lt | rfl := Nat.lt_or_eq_of_le small
  · have nonzero := Nat.ne_of_gt pos
    have digits : k.log2 ≤ 52 := Nat.le_of_lt_succ ((Nat.log2_lt nonzero).2 lt)
    refine ⟨k * 2 ^ (52 - k.log2), k.log2 - 52, ⟨?_, ?_⟩, by omega, by omega, ?_⟩
    · calc 2 ^ 52 = 2 ^ k.log2 * 2 ^ (52 - k.log2) := by rw [← Nat.pow_add]; congr 1; omega
        _ ≤ k * 2 ^ (52 - k.log2) := Nat.mul_le_mul_right _ (Nat.log2_self_le nonzero)
    · calc k * 2 ^ (52 - k.log2) < 2 ^ (k.log2 + 1) * 2 ^ (52 - k.log2) :=
            Nat.mul_lt_mul_of_pos_right Nat.lt_log2_self (Nat.two_pow_pos _)
        _ = 2 ^ 53 := by rw [← Nat.pow_add]; congr 1; omega
    · push_cast
      rw [mul_assoc, ← zpow_natCast, ← zpow_add₀ two_ne_zero, Nat.cast_sub digits]
      simp
  · exact ⟨2 ^ 52, 1, ⟨le_rfl, by decide⟩, by omega, by omega, by norm_num⟩

/-- A small integer, however it is written, is rounded to itself. -/
theorem kept_normalize {k e n : Int} (value : (k : ℚ) * 2 ^ e = n) (small : Small n) :
    Kept (UnpackedFloat.normalize Format.binary64 k e .positive) n := by
  have scale : (0 : ℚ) < 2 ^ e := by positivity
  -- the size of the number, and the sign that it gets
  have sized : ∀ {size : Nat} {sign : Sign}, 0 < size → ((sign.apply size : ℤ) : ℚ) * 2 ^ e = n →
      Kept (UnpackedFloat.round Format.binary64 sign size e) n := by
    intro size sign pos signed
    have total := natCast_mul_eq_abs signed
    have positive : (0 : ℚ) < (|n| : ℤ) := total ▸ mul_pos (by exact_mod_cast pos) scale
    have abs : (n.natAbs : ℤ) = |n| := Int.natCast_natAbs n
    obtain ⟨m, t, full, least, most, same⟩ := exists_full (k := n.natAbs)
      (by have := Int.cast_pos.1 positive; omega) (by unfold Small at small; omega)
    have equal : (size : ℚ) * 2 ^ e = m * 2 ^ t := by
      rw [total, ← same, ← abs]
      rfl
    rw [round_eq full least equal]
    refine .finite full least most ?_
    cases sign with
    | positive => exact equal ▸ signed
    | negative =>
      simp only [Sign.apply, Int.cast_neg, Int.cast_natCast, neg_mul] at signed ⊢
      exact equal ▸ signed
  unfold UnpackedFloat.normalize
  rcases lt_trichotomy k 0 with neg | rfl | pos
  · rw [Int.compare_eq_lt.2 neg]
    have size : ((-k).toNat : ℤ) = -k := Int.toNat_of_nonneg (by omega)
    exact sized (by omega) (by simpa [Sign.apply, size] using value)
  · have zero : n = 0 := by simpa using value.symm
    subst zero
    exact .zero .positive
  · rw [Int.compare_eq_gt.2 pos]
    exact sized (by omega) (by simpa [Sign.apply, Int.toNat_of_nonneg pos.le] using value)

/-! ## 5. Sums and comparisons

Both are defined by way of exact values, so they are exact where the result has a full mantissa. -/

/-- A number written with a smaller exponent is the same number. -/
theorem shiftLeft_value (sign : Sign) (m : Nat) {e t : Int} (le : t ≤ e) :
    ((sign.apply (m <<< (e - t).toNat : ℕ) : ℤ) : ℚ) * 2 ^ t =
      ((sign.apply m : ℤ) : ℚ) * 2 ^ e := by
  have shifted : (((m <<< (e - t).toNat : ℕ) : ℤ) : ℚ) * 2 ^ t = (m : ℚ) * 2 ^ e := by
    rw [Nat.shiftLeft_eq]
    push_cast
    rw [mul_assoc, ← zpow_natCast, Int.toNat_of_nonneg (by omega), ← zpow_add₀ two_ne_zero,
      Int.sub_add_cancel]
  cases sign with
  | positive => exact shifted
  | negative =>
    simp only [Sign.apply, Int.cast_neg, Int.cast_natCast, neg_mul, neg_inj] at shifted ⊢
    exact shifted

/-- Sums of integers are exact as long as they are small. -/
theorem Kept.add {u v : UnpackedFloat} {m n : Int} (hu : Kept u m) (hv : Kept v n)
    (small : Small (m + n)) : Kept (UnpackedFloat.add Format.binary64 u v) (m + n) := by
  cases hu with
  | zero sign =>
    rw [Int.zero_add] at small ⊢
    cases hv with
    | zero sign' =>
      unfold UnpackedFloat.add
      dsimp only
      split
      · exact .zero sign
      · exact .zero .positive
    | finite full least most value => exact .finite full least most value
  | @finite sign k e _ full least most value =>
    cases hv with
    | zero sign' =>
      rw [Int.add_zero]
      exact .finite full least most value
    | @finite sign' k' e' _ full' least' most' value' =>
      refine kept_normalize ?_ small
      rw [Int.cast_add, add_mul, shiftLeft_value sign k (min_le_left e e'),
        shiftLeft_value sign' k' (min_le_right e e'), value, value', Int.cast_add]

/-- **Sums of small integers are exact.** -/
theorem IsInteger.add {x y : Float} {m n : Int} (hx : IsInteger x m) (hy : IsInteger y n)
    (small : Small m) (small' : Small n) (sum : Small (m + n)) : IsInteger (x + y) (m + n) := by
  have kept := (hx.kept small).add (hy.kept small') sum
  change Equals (Float.Model.pack (UnpackedFloat.add _ _ _)).unpack _
  rw [kept.unpack_pack]
  exact kept.equals

/-- Comparisons are those of the integers. -/
theorem Kept.lt_iff {u v : UnpackedFloat} {m n : Int} (hu : Kept u m) (hv : Kept v n) :
    u.lt v = true ↔ m < n := by
  have positive : ∀ {k : ℕ} {e : ℤ}, Full k → (0 : ℚ) < k * 2 ^ e := fun full =>
    mul_pos (by exact_mod_cast full.pos) (by positivity)
  unfold UnpackedFloat.lt
  rw [beq_iff_eq, ← Int.cast_lt (R := ℚ)]
  cases hu with
  | zero sign =>
    cases hv with
    | zero sign' => simp [UnpackedFloat.compare]
    | @finite sign' k' e' _ full' least' most' value' =>
      have pos := positive (e := e') full'
      rw [← value']
      cases sign' <;> simp [UnpackedFloat.compare, Sign.apply] <;> linarith
  | @finite sign k e _ full least most value =>
    have pos := positive (e := e) full
    rw [← value]
    cases hv with
    | zero sign' =>
      cases sign <;> simp [UnpackedFloat.compare, Sign.apply] <;> linarith
    | @finite sign' k' e' _ full' least' most' value' =>
      have pos' := positive (e := e') full'
      rw [← value']
      cases sign with
      | positive =>
        cases sign' with
        | positive =>
          simp only [UnpackedFloat.compare, Sign.apply, Option.some.injEq, Int.cast_natCast]
          rw [Ordering.then_eq_lt, Int.compare_eq_lt, Int.compare_eq_eq, Nat.compare_eq_lt,
            full.lt_iff full']
        | negative =>
          simp [UnpackedFloat.compare, Sign.apply]
          linarith
      | negative =>
        cases sign' with
        | positive =>
          simp [UnpackedFloat.compare, Sign.apply]
          linarith
        | negative =>
          simp only [UnpackedFloat.compare, Sign.apply, Option.some.injEq, Int.cast_neg,
            Int.cast_natCast, neg_mul, neg_lt_neg_iff]
          rw [Ordering.swap_eq_lt, Ordering.then_eq_gt, Int.compare_eq_gt, Int.compare_eq_eq,
            Nat.compare_eq_gt, full'.lt_iff full, eq_comm]

/-- **Small integers are compared as integers.** -/
theorem IsInteger.lt_iff {x y : Float} {m n : Int} (hx : IsInteger x m) (hy : IsInteger y n)
    (small : Small m) (small' : Small n) : x < y ↔ m < n :=
  decide_eq_true_iff.trans ((hx.kept small).lt_iff (hy.kept small'))

theorem isInteger_zero : IsInteger 0 0 := rfl

/-- A number equals zero if it is the integer zero. -/
theorem IsInteger.beq_zero_iff {x : Float} {n : Int} (hx : IsInteger x n) :
    (x == 0) = true ↔ n = 0 := by
  change x.toModel.unpack.beq (.zero .positive) = true ↔ _
  unfold IsInteger at hx
  cases found : x.toModel.unpack with
  | infinity sign =>
    rw [found] at hx
    exact hx.elim
  | notANumber =>
    rw [found] at hx
    exact hx.elim
  | zero sign =>
    rw [found] at hx
    exact iff_of_true rfl hx
  | finite sign m e pos =>
    rw [found] at hx
    have size := natCast_mul_eq_abs hx
    have positive : (0 : ℚ) < m * 2 ^ e := mul_pos (by exact_mod_cast pos) (by positivity)
    refine iff_of_false ?_ ?_
    · cases sign <;> exact Bool.false_ne_true
    · rintro rfl
      rw [size] at positive
      simp at positive

/-- The number that is an integer. -/
def number (n : Int) : Float := ⟨.ofInt n⟩

/-- Every small integer is a number. -/
theorem isInteger_number {n : Int} (small : Small n) : IsInteger (number n) n := by
  have kept : Kept (UnpackedFloat.ofInt Format.binary64 n) n := kept_normalize (by simp) small
  change Equals (Float.Model.pack (UnpackedFloat.ofInt _ _)).unpack _
  rw [kept.unpack_pack]
  exact kept.equals

example : number 3 = 3 := by decide +kernel

end Lox.Decimal
