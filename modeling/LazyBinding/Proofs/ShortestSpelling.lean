import LazyBinding.Decimal.Shortest
import LazyBinding.Proofs.NearestDouble

/-!
# The shortest spelling reads back

Whatever numeral the search for the shortest spelling ends with, it reads back as the double that
was spelled.
-/
namespace LazyBinding.Decimal

variable {m : Nat} {e : Int} {tie : Tie}

theorem neighbour?_bits {bits n d : Nat} {unit : Int} {a : Numeral}
    (h : neighbour? tie bits n d unit = some a) : a.bits = bits := by
  unfold neighbour? at h
  have reads := List.find?_some h
  exact beq_iff_eq.1 reads

theorem expansion_value (m : Nat) (e : Int) :
    (if 0 ≤ e then (⟨m <<< e.toNat, 0⟩ : Numeral) else ⟨m * Nat.pow 5 (-e).toNat, e⟩).value =
      m * 2 ^ e := by
  split
  · next whole =>
    obtain ⟨k, rfl⟩ := Int.eq_ofNat_of_zero_le whole
    simp [Numeral.value, Nat.shiftLeft_eq]
  · next broken =>
    obtain ⟨k, hk⟩ := Int.eq_ofNat_of_zero_le (show 0 ≤ -e by omega)
    obtain rfl : e = -(k : Int) := by omega
    have ten : (10 : ℚ) ^ k = 5 ^ k * 2 ^ k := by rw [← mul_pow]; norm_num
    simp [Numeral.value, ten]
    field_simp

theorem shortest_bits (tie : Tie) (h : Representable m e) (hm : 0 < m) :
    (shortest tie m e).bits = magnitudeBits m e := by
  have spelled : nearestBits (scale m 1 e).1 (scale m 1 e).2 = magnitudeBits m e := by
    refine nearestBits_exact h hm (scale_pos Nat.one_pos e) ?_
    rw [scale_value, Nat.cast_one, div_one]
  unfold shortest
  dsimp only
  split
  · next found =>
    obtain ⟨n, -, near⟩ := List.exists_of_findSome?_eq_some found
    exact (neighbour?_bits near).trans spelled
  · exact Numeral.bits_exact h hm (expansion_value m e)

/-- The shortest spelling of a double other than zero is not zero, and its leading digit stands for
no power of ten beyond those of the doubles. -/
theorem shortest_range (tie : Tie) (h : Representable m e) (hm : 0 < m) :
    (shortest tie m e).coefficient ≠ 0 ∧
      -330 ≤ (digitCount (shortest tie m e).coefficient : Int) + (shortest tie m e).exponent ∧
      (digitCount (shortest tie m e).coefficient : Int) + (shortest tie m e).exponent ≤ 310 := by
  have bits := shortest_bits tie h hm
  apply Numeral.magnitude_range
  · rw [bits, magnitudeBits]
    omega
  · rw [bits]
    exact h.magnitudeBits_lt.ne

end LazyBinding.Decimal
