import LazyBinding.Decimal.Numeral
import Mathlib.Algebra.Order.Field.Power
import Mathlib.Data.Int.Log
import Mathlib.Data.Rat.Floor
import Mathlib.Tactic.FieldSimp
import Mathlib.Tactic.Ring
import Mathlib.Tactic.NormNum

/-!
# The nearest double of a number

Which double is nearest depends on the value of a fraction alone, not on how it is written, and so
does what a numeral reads back as. A value that is a double is its own nearest one.
-/
namespace LazyBinding.Decimal

variable {n d n' d' m c : Nat} {e l : Int}

/-! ### Scaling -/

theorem scale_pos (hd : 0 < d) (shift : Int) : 0 < (scale n d shift).2 := by
  unfold scale
  split
  · exact hd
  · rw [Nat.shiftLeft_eq]
    positivity

theorem scale_value (shift : Int) :
    ((scale n d shift).1 : ℚ) / (scale n d shift).2 = n / d * 2 ^ shift := by
  unfold scale
  split
  · next h =>
    obtain ⟨k, rfl⟩ := Int.eq_ofNat_of_zero_le h
    simp only [Int.toNat_natCast, Nat.shiftLeft_eq, Nat.cast_mul, Nat.cast_pow, zpow_natCast,
      Nat.cast_ofNat]
    ring
  · next h =>
    obtain ⟨k, hk⟩ := Int.eq_ofNat_of_zero_le (show 0 ≤ -shift by omega)
    obtain rfl : shift = -(k : Int) := by omega
    simp only [neg_neg, Int.toNat_natCast, Nat.shiftLeft_eq, Nat.cast_mul, Nat.cast_pow,
      Nat.cast_ofNat, zpow_neg, zpow_natCast]
    rw [div_mul_eq_div_mul_one_div]
    ring

theorem value_eq_iff (hd : 0 < d) (hd' : 0 < d') :
    (n : ℚ) / d = n' / d' ↔ n * d' = n' * d := by
  rw [div_eq_div_iff (by positivity) (by positivity)]
  exact_mod_cast Iff.rfl

/-! ### The binary logarithm -/

theorem log_eq_of_bracket {b : Nat} (hb : 1 < b) {r : ℚ} {l : Int} (hr : 0 < r)
    (least : (b : ℚ) ^ l ≤ r) (below : r < (b : ℚ) ^ (l + 1)) : Int.log b r = l := by
  have lower := (Int.zpow_le_iff_le_log hb hr).1 least
  have upper := (Int.lt_zpow_iff_log_lt hb hr).1 below
  omega

theorem scale_lt_iff (hd : 0 < d) (shift : Int) :
    (scale n d (-shift)).1 < (scale n d (-shift)).2 ↔ (n : ℚ) / d < 2 ^ shift := by
  have hpos := scale_pos (n := n) hd (-shift)
  have hpow : (0 : ℚ) < 2 ^ shift := by positivity
  have hscaled : (0 : ℚ) < (scale n d (-shift)).2 := by exact_mod_cast hpos
  rw [← Nat.cast_lt (α := ℚ), ← div_lt_one hscaled, scale_value, zpow_neg, ← div_eq_mul_inv,
    div_lt_one hpow]

/-- The logarithms of the parts leave two candidates for that of the fraction. -/
theorem log2_bracket (hn : 0 < n) (hd : 0 < d) :
    (2 : ℚ) ^ ((n.log2 : Int) - d.log2 - 1) ≤ n / d ∧
      (n : ℚ) / d < 2 ^ ((n.log2 : Int) - d.log2 + 1) := by
  have hdq : (0 : ℚ) < d := by exact_mod_cast hd
  have least : ((2 : ℚ) ^ n.log2) ≤ n := by exact_mod_cast Nat.log2_self_le hn.ne'
  have below : (n : ℚ) < 2 ^ (n.log2 + 1) := by exact_mod_cast Nat.lt_log2_self
  have least' : ((2 : ℚ) ^ d.log2) ≤ d := by exact_mod_cast Nat.log2_self_le hd.ne'
  have below' : (d : ℚ) < 2 ^ (d.log2 + 1) := by exact_mod_cast Nat.lt_log2_self
  constructor
  · rw [le_div_iff₀ hdq]
    calc (2 : ℚ) ^ ((n.log2 : Int) - d.log2 - 1) * d
        ≤ 2 ^ ((n.log2 : Int) - d.log2 - 1) * 2 ^ (d.log2 + 1) := by gcongr
      _ = 2 ^ n.log2 := by
        rw [← zpow_natCast, ← zpow_add₀ two_ne_zero, ← zpow_natCast]
        congr 1
        push_cast
        ring
      _ ≤ n := least
  · rw [div_lt_iff₀ hdq]
    calc (n : ℚ) < 2 ^ (n.log2 + 1) := below
      _ = 2 ^ ((n.log2 : Int) - d.log2 + 1) * 2 ^ d.log2 := by
        rw [← zpow_natCast, ← zpow_natCast, ← zpow_add₀ two_ne_zero]
        congr 1
        push_cast
        ring
      _ ≤ 2 ^ ((n.log2 : Int) - d.log2 + 1) * d := by gcongr

theorem floorLog2_eq (hn : 0 < n) (hd : 0 < d) : floorLog2 n d = Int.log 2 ((n : ℚ) / d) := by
  have hpos : (0 : ℚ) < n / d := by positivity
  obtain ⟨least, below⟩ := log2_bracket hn hd
  have smaller := scale_lt_iff (n := n) hd ((n.log2 : Int) - d.log2)
  unfold floorLog2
  dsimp only
  split
  · next h =>
    refine (log_eq_of_bracket (by decide) hpos (by exact_mod_cast least) ?_).symm
    have upper := smaller.1 h
    rw [sub_add_cancel]
    exact_mod_cast upper
  · next h =>
    have lower := not_lt.1 (mt smaller.2 h)
    exact (log_eq_of_bracket (by decide) hpos (by exact_mod_cast lower)
      (by exact_mod_cast below)).symm

/-! ### Rounding -/

theorem roundHalfEven_mul (hc : 0 < c) : roundHalfEven (n * c) (d * c) = roundHalfEven n d := by
  have twice : 2 * (n % d * c) = 2 * (n % d) * c := by rw [Nat.mul_assoc]
  have below : 2 * (n % d) * c < d * c ↔ 2 * (n % d) < d := Nat.mul_lt_mul_right hc
  have above : d * c < 2 * (n % d) * c ↔ d < 2 * (n % d) := Nat.mul_lt_mul_right hc
  simp only [roundHalfEven, Nat.mul_div_mul_right _ _ hc, Nat.mul_mod_mul_right, twice, below,
    above]

theorem roundHalfEven_congr (hd : 0 < d) (hd' : 0 < d') (same : (n : ℚ) / d = n' / d') :
    roundHalfEven n d = roundHalfEven n' d' := by
  rw [← roundHalfEven_mul hd', (value_eq_iff hd hd').1 same, Nat.mul_comm d d',
    roundHalfEven_mul hd]

theorem roundHalfEven_one : roundHalfEven m 1 = m := by
  simp [roundHalfEven, Nat.mod_one]

theorem nearestBits_congr (hd : 0 < d) (hd' : 0 < d') (same : (n : ℚ) / d = n' / d') :
    nearestBits n d = nearestBits n' d' := by
  have cross := (value_eq_iff hd hd').1 same
  by_cases hn : n = 0
  · subst hn
    have hn' : n' = 0 := by
      rw [Nat.zero_mul] at cross
      exact (Nat.mul_eq_zero.1 cross.symm).resolve_right hd.ne'
    rw [hn', nearestBits, nearestBits]
    simp
  · have hn' : n' ≠ 0 := by
      rintro rfl
      rw [Nat.zero_mul] at cross
      exact (Nat.mul_eq_zero.1 cross).elim hn hd'.ne'
    have hlog : floorLog2 n d = floorLog2 n' d' := by
      rw [floorLog2_eq (Nat.pos_of_ne_zero hn) hd, floorLog2_eq (Nat.pos_of_ne_zero hn') hd', same]
    have rounded : ∀ shift, roundHalfEven (scale n d shift).1 (scale n d shift).2 =
        roundHalfEven (scale n' d' shift).1 (scale n' d' shift).2 := by
      intro shift
      refine roundHalfEven_congr (scale_pos hd shift) (scale_pos hd' shift) ?_
      rw [scale_value, scale_value, same]
    rw [nearestBits, nearestBits, if_neg hn, if_neg hn', hlog]
    dsimp only
    rw [rounded]

/-- The mantissa and the exponent of a finite double. -/
structure Representable (m : Nat) (e : Int) : Prop where
  below : m < 2 * hiddenBit
  least : -1074 ≤ e
  greatest : e ≤ 971
  normal : hiddenBit ≤ m ∨ e = -1074

/-- The magnitude bits of a finite double. -/
def magnitudeBits (m : Nat) (e : Int) : Nat := (e + 1074).toNat * hiddenBit + m

theorem Representable.magnitudeBits_lt (h : Representable m e) :
    magnitudeBits m e < infinityBits := by
  have hbelow := h.below
  have hgreatest := h.greatest
  unfold magnitudeBits infinityBits
  unfold hiddenBit at *
  omega

theorem Representable.magnitudeBits_zero (h : Representable 0 e) : magnitudeBits 0 e = 0 := by
  have least : e = -1074 := h.normal.resolve_left (by decide)
  subst least
  rfl

/-- The exponent of a double is the one that puts its mantissa below `2^53`, but not below the least
one. -/
theorem Representable.exponent_eq (h : Representable m e) (hm : 0 < m) :
    max (-1074) (Int.log 2 ((m : ℚ) * 2 ^ e) - 52) = e := by
  have hmq : (0 : ℚ) < m := by exact_mod_cast hm
  have hpos : (0 : ℚ) < m * 2 ^ e := by positivity
  have upper : (m : ℚ) < 2 ^ (53 : Int) := by exact_mod_cast h.below
  have hlog : Int.log 2 ((m : ℚ) * 2 ^ e) < 53 + e := by
    refine (Int.lt_zpow_iff_log_lt (by decide) hpos).1 ?_
    push_cast
    rw [zpow_add₀ two_ne_zero]
    gcongr
  rcases h.normal with normal | least
  · have lower : (2 : ℚ) ^ (52 : Int) ≤ m := by exact_mod_cast normal
    have hlog' : 52 + e ≤ Int.log 2 ((m : ℚ) * 2 ^ e) := by
      refine (Int.zpow_le_iff_le_log (by decide) hpos).1 ?_
      push_cast
      rw [zpow_add₀ two_ne_zero]
      gcongr
    have := h.least
    omega
  · omega

theorem nearestBits_exact (h : Representable m e) (hm : 0 < m) (hd : 0 < d)
    (exact : (n : ℚ) / d = m * 2 ^ e) : nearestBits n d = magnitudeBits m e := by
  have hmq : (0 : ℚ) < m := by exact_mod_cast hm
  have hn : 0 < n := by
    apply Nat.pos_of_ne_zero
    rintro rfl
    have : (0 : ℚ) < m * 2 ^ e := by positivity
    rw [← exact] at this
    simp at this
  have hexponent : max (-1074) (floorLog2 n d - 52) = e := by
    rw [floorLog2_eq hn hd, exact]
    exact h.exponent_eq hm
  have rounded : roundHalfEven (scale n d (-e)).1 (scale n d (-e)).2 = m := by
    rw [← roundHalfEven_one (m := m)]
    refine roundHalfEven_congr (scale_pos hd _) Nat.one_pos ?_
    rw [scale_value, exact, mul_assoc, ← zpow_add₀ two_ne_zero]
    simp
  rw [nearestBits, if_neg hn.ne', hexponent]
  dsimp only
  rw [rounded]
  exact Nat.min_eq_right h.magnitudeBits_lt.le

/-! ### Bounds -/

theorem le_roundHalfEven (n d : Nat) : n / d ≤ roundHalfEven n d := by
  unfold roundHalfEven
  dsimp only
  repeat' split
  all_goals omega

theorem le_round_scaled (hd : 0 < d) (least : (2 : ℚ) ^ l ≤ n / d) :
    hiddenBit ≤ roundHalfEven (scale n d (-(l - 52))).1 (scale n d (-(l - 52))).2 := by
  have hpos := scale_pos (n := n) hd (-(l - 52))
  have hscaled : (0 : ℚ) < (scale n d (-(l - 52))).2 := by exact_mod_cast hpos
  have units : (hiddenBit : ℚ) * (scale n d (-(l - 52))).2 ≤ (scale n d (-(l - 52))).1 := by
    rw [← le_div_iff₀ hscaled, scale_value]
    calc (hiddenBit : ℚ) = 2 ^ (52 : Int) := by norm_num [hiddenBit]
      _ = 2 ^ l * 2 ^ (-(l - 52)) := by
        rw [← zpow_add₀ two_ne_zero]
        congr 1
        ring
      _ ≤ n / d * 2 ^ (-(l - 52)) := by gcongr
  apply le_trans _ (le_roundHalfEven _ _)
  rw [Nat.le_div_iff_mul_le hpos]
  exact_mod_cast units

theorem le_nearestBits (hn : 0 < n) (hd : 0 < d) (normal : -1022 ≤ l)
    (least : (2 : ℚ) ^ l ≤ n / d) :
    min infinityBits ((l + 1023).toNat * hiddenBit) ≤ nearestBits n d := by
  have hpos : (0 : ℚ) < n / d := by positivity
  obtain ⟨log, hlog⟩ : ∃ log, Int.log 2 ((n : ℚ) / d) = log := ⟨_, rfl⟩
  have above : l ≤ log := by
    rw [← hlog]
    exact (Int.zpow_le_iff_le_log (by decide) hpos).1 (by exact_mod_cast least)
  have lower : (2 : ℚ) ^ log ≤ n / d := by
    rw [← hlog]
    exact_mod_cast Int.zpow_log_le_self (b := 2) (by decide) hpos
  have hexponent : max (-1074) (floorLog2 n d - 52) = log - 52 := by
    rw [floorLog2_eq hn hd]
    omega
  have mantissa := le_round_scaled hd lower
  rw [nearestBits, if_neg hn.ne', hexponent]
  dsimp only
  unfold hiddenBit at *
  omega

theorem nearestBits_le (n d : Nat) : nearestBits n d ≤ infinityBits := by
  unfold nearestBits
  split
  · exact Nat.zero_le _
  · exact Nat.min_le_left _ _

theorem nearestBits_eq_zero_iff : nearestBits n 1 = 0 ↔ n = 0 := by
  constructor
  · intro zero
    by_contra nonzero
    have positive := Nat.pos_of_ne_zero nonzero
    have least : (2 : ℚ) ^ (0 : Int) ≤ (n : ℚ) / (1 : Nat) := by
      rw [zpow_zero, Nat.cast_one, div_one]
      exact_mod_cast positive
    have bound := le_nearestBits positive (by decide) (by decide) least
    rw [zero] at bound
    revert bound
    decide
  · rintro rfl
    rfl

/-! ### Numerals -/

theorem digitCount_le_iff {k : Nat} (hk : 0 < k) : digitCount n ≤ k ↔ n < 10 ^ k :=
  Nat.length_toDigits_le_iff (by decide) hk

theorem digitCount_pos (n : Nat) : 0 < digitCount n := Nat.length_toDigits_pos

theorem digitCount_bracket (hn : 0 < n) :
    10 ^ (digitCount n - 1) ≤ n ∧ n < 10 ^ digitCount n := by
  refine ⟨?_, (digitCount_le_iff (digitCount_pos n)).1 le_rfl⟩
  by_cases single : digitCount n - 1 = 0
  · rw [single]
    exact hn
  · apply Nat.le_of_not_lt
    intro below
    have := (digitCount_le_iff (Nat.pos_of_ne_zero single)).2 below
    omega

namespace Numeral

variable {a a' : Numeral}

def value (a : Numeral) : ℚ := a.coefficient * 10 ^ a.exponent

theorem value_pos (ha : 0 < a.coefficient) : 0 < a.value := by
  have : (0 : ℚ) < a.coefficient := by exact_mod_cast ha
  rw [value]
  positivity

theorem coefficient_eq_zero_iff : a.coefficient = 0 ↔ a.value = 0 := by
  rw [value, mul_eq_zero, or_iff_left (by positivity)]
  exact_mod_cast Iff.rfl

theorem magnitude_eq (ha : 0 < a.coefficient) :
    (digitCount a.coefficient : Int) + a.exponent = Int.log 10 a.value + 1 := by
  obtain ⟨least, below⟩ := digitCount_bracket ha
  have hpos := digitCount_pos a.coefficient
  have least' : ((10 : ℚ) ^ (digitCount a.coefficient - 1)) ≤ a.coefficient := by
    exact_mod_cast least
  have below' : (a.coefficient : ℚ) < 10 ^ digitCount a.coefficient := by exact_mod_cast below
  have hlog : Int.log 10 a.value = (digitCount a.coefficient : Int) - 1 + a.exponent := by
    refine log_eq_of_bracket (by decide) (value_pos ha) ?_ ?_
    · push_cast
      rw [value, zpow_add₀ (by norm_num), ← Nat.cast_pred hpos, zpow_natCast]
      gcongr
    · have split : (digitCount a.coefficient : Int) - 1 + a.exponent + 1 =
          digitCount a.coefficient + a.exponent := by ring
      push_cast
      rw [value, split, zpow_add₀ (by norm_num), zpow_natCast]
      gcongr
  omega

/-- The fraction that a numeral is read as. -/
def fraction (a : Numeral) : Nat × Nat :=
  if 0 ≤ a.exponent then (a.coefficient * Nat.pow 10 a.exponent.toNat, 1)
  else (a.coefficient, Nat.pow 10 (-a.exponent).toNat)

theorem fraction_pos (a : Numeral) : 0 < a.fraction.2 := by
  unfold fraction
  split
  · exact Nat.one_pos
  · exact Nat.pow_pos (by decide)

theorem fraction_value (a : Numeral) : (a.fraction.1 : ℚ) / a.fraction.2 = a.value := by
  unfold fraction value
  split
  · next whole =>
    obtain ⟨k, hk⟩ := Int.eq_ofNat_of_zero_le whole
    rw [hk]
    simp
  · next broken =>
    obtain ⟨k, hk⟩ := Int.eq_ofNat_of_zero_le (show 0 ≤ -a.exponent by omega)
    have hexponent : a.exponent = -(k : Int) := by omega
    rw [hexponent, neg_neg, Int.toNat_natCast, zpow_neg, zpow_natCast, div_eq_mul_inv]
    simp

theorem bits_in_range (ha : a.coefficient ≠ 0)
    (small : (digitCount a.coefficient : Int) + a.exponent ≤ 310)
    (large : -330 ≤ (digitCount a.coefficient : Int) + a.exponent) :
    a.bits = nearestBits a.fraction.1 a.fraction.2 := by
  rw [bits, if_neg ha]
  dsimp only
  rw [if_neg (by omega), if_neg (by omega), fraction]
  split <;> rfl

theorem bits_congr (same : a.value = a'.value) : a.bits = a'.bits := by
  by_cases ha : a.coefficient = 0
  · have ha' : a'.coefficient = 0 := by
      rw [coefficient_eq_zero_iff] at ha ⊢
      rwa [← same]
    rw [bits, bits, if_pos ha, if_pos ha']
  · have ha' : a'.coefficient ≠ 0 := by
      intro ha'
      rw [coefficient_eq_zero_iff] at ha ha'
      exact ha (same.trans ha')
    have magnitude := magnitude_eq (Nat.pos_of_ne_zero ha)
    rw [same, ← magnitude_eq (Nat.pos_of_ne_zero ha')] at magnitude
    by_cases small : (digitCount a.coefficient : Int) + a.exponent ≤ 310
    · by_cases large : -330 ≤ (digitCount a.coefficient : Int) + a.exponent
      · rw [bits_in_range ha small large, bits_in_range ha' (by omega) (by omega)]
        refine nearestBits_congr a.fraction_pos a'.fraction_pos ?_
        rw [fraction_value, fraction_value, same]
      · rw [bits, bits, if_neg ha, if_neg ha']
        dsimp only
        rw [if_neg (by omega), if_pos (by omega), if_neg (by omega), if_pos (by omega)]
    · rw [bits, bits, if_neg ha, if_neg ha']
      dsimp only
      rw [if_pos (by omega), if_pos (by omega)]

/-- What reads back as a finite double other than zero is neither too large nor too small. -/
theorem magnitude_range (positive : a.bits ≠ 0) (finite : a.bits ≠ infinityBits) :
    a.coefficient ≠ 0 ∧ -330 ≤ (digitCount a.coefficient : Int) + a.exponent ∧
      (digitCount a.coefficient : Int) + a.exponent ≤ 310 := by
  unfold bits at positive finite
  by_cases ha : a.coefficient = 0
  · rw [if_pos ha] at positive
    exact absurd rfl positive
  · rw [if_neg ha] at positive finite
    dsimp only at positive finite
    refine ⟨ha, ?_, ?_⟩
    · by_contra large
      rw [if_neg (by omega), if_pos (by omega)] at positive
      exact positive rfl
    · by_contra small
      rw [if_pos (by omega)] at finite
      exact finite rfl

theorem bits_le (a : Numeral) : a.bits ≤ infinityBits := by
  unfold bits
  split
  · exact Nat.zero_le _
  · dsimp only
    split
    · exact le_rfl
    · split
      · exact Nat.zero_le _
      · split <;> exact nearestBits_le _ _

theorem le_bits (whole : 0 ≤ a.exponent) (normal : -1022 ≤ l) (least : (2 : ℚ) ^ l ≤ a.value) :
    min infinityBits ((l + 1023).toNat * hiddenBit) ≤ a.bits := by
  have positive : (0 : ℚ) < 2 ^ l := by positivity
  have ha : a.coefficient ≠ 0 := mt coefficient_eq_zero_iff.1 (positive.trans_le least).ne'
  by_cases small : (digitCount a.coefficient : Int) + a.exponent ≤ 310
  · rw [bits_in_range ha small (by omega)]
    have fraction : (0 : ℚ) < a.fraction.1 / a.fraction.2 := by
      rw [fraction_value]
      exact positive.trans_le least
    have hn : a.fraction.1 ≠ 0 := by
      intro zero
      rw [zero, Nat.cast_zero, zero_div] at fraction
      exact lt_irrefl _ fraction
    refine le_nearestBits (Nat.pos_of_ne_zero hn) a.fraction_pos normal ?_
    rw [fraction_value]
    exact least
  · rw [bits, if_neg ha]
    dsimp only
    rw [if_pos (by omega)]
    exact Nat.min_le_left _ _

end Numeral

theorem zpow_neg_le_of_pow_le {k l : Nat} (h : 2 ^ k ≤ 10 ^ l) :
    ((10 : Nat) : ℚ) ^ (-(l : Int)) ≤ 2 ^ (-(k : Int)) := by
  rw [zpow_neg, zpow_neg, zpow_natCast, zpow_natCast]
  exact inv_anti₀ (by positivity) (by exact_mod_cast h)

theorem zpow_lt_of_pow_lt {k l : Nat} (h : 2 ^ k < 10 ^ l) :
    (2 : ℚ) ^ (k : Int) < ((10 : Nat) : ℚ) ^ (l : Int) := by
  rw [zpow_natCast, zpow_natCast]
  exact_mod_cast h

theorem Representable.log_bounds (h : Representable m e) (hm : 0 < m) :
    -331 ≤ Int.log 10 ((m : ℚ) * 2 ^ e) ∧ Int.log 10 ((m : ℚ) * 2 ^ e) < 310 := by
  have hmq : (1 : ℚ) ≤ m := by exact_mod_cast hm
  have hpos : (0 : ℚ) < m * 2 ^ e := by positivity
  constructor
  · refine (Int.zpow_le_iff_le_log (by decide) hpos).1 ?_
    have hpow : (2 : ℚ) ^ (-1074 : Int) ≤ 2 ^ e := zpow_le_zpow_right₀ one_le_two h.least
    calc ((10 : Nat) : ℚ) ^ (-331 : Int) ≤ 2 ^ (-1074 : Int) :=
          zpow_neg_le_of_pow_le (k := 1074) (l := 331) (by decide +kernel)
      _ ≤ 2 ^ e := hpow
      _ ≤ m * 2 ^ e := le_mul_of_one_le_left (by positivity) hmq
  · refine (Int.lt_zpow_iff_log_lt (by decide) hpos).1 ?_
    have below : (m : ℚ) < 2 ^ (53 : Int) := by exact_mod_cast h.below
    have hpow : (2 : ℚ) ^ e ≤ 2 ^ (971 : Int) := zpow_le_zpow_right₀ one_le_two h.greatest
    calc (m : ℚ) * 2 ^ e ≤ 2 ^ (53 : Int) * 2 ^ (971 : Int) := by gcongr
      _ = 2 ^ (1024 : Int) := (zpow_add₀ two_ne_zero 53 971).symm
      _ < ((10 : Nat) : ℚ) ^ (310 : Int) :=
        zpow_lt_of_pow_lt (k := 1024) (l := 310) (by decide +kernel)

/-- A numeral whose value is a double reads back as that double. -/
theorem Numeral.bits_exact {a : Numeral} (h : Representable m e) (hm : 0 < m)
    (exact : a.value = m * 2 ^ e) : a.bits = magnitudeBits m e := by
  have hvalue : a.value ≠ 0 := by
    have : (0 : ℚ) < m := by exact_mod_cast hm
    rw [exact]
    positivity
  have ha : a.coefficient ≠ 0 := mt coefficient_eq_zero_iff.1 hvalue
  have magnitude := magnitude_eq (Nat.pos_of_ne_zero ha)
  rw [exact] at magnitude
  obtain ⟨large, small⟩ := h.log_bounds hm
  rw [bits_in_range ha (by omega) (by omega)]
  exact nearestBits_exact h hm a.fraction_pos (a.fraction_value.trans exact)

end LazyBinding.Decimal
