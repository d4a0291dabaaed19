import LazyBinding.Proofs.NearestDouble
import Mathlib

/-!
# The bits of a double

A double is built from its bits through an unpacked form, which drops nothing but the payload of
what is no number. So a finite double is given back by its sign, mantissa and exponent, and the bits
of any other double but that one by the double.
-/
namespace LazyBinding.Decimal

open Float.Model Float.Model.UnpackedFloat

variable {b : BitVec Format.binary64.numBits} {negative : Bool} {m : Nat} {e : Int} {x : Float}

/-! ### Fields -/

theorem toNat_unpackExponent : (unpackExponent b).toNat = b.toNat / hiddenBit % 2048 := by
  simp [unpackExponent, Format.binary64, hiddenBit, Nat.shiftRight_eq_div_pow]

theorem toNat_unpackMantissa : (unpackMantissa b).toNat = b.toNat % hiddenBit := by
  simp [unpackMantissa, Format.binary64, hiddenBit]

theorem toNat_hidden_append (v : BitVec 52) : (1#1 ++ v).toNat = hiddenBit + v.toNat := by
  rw [BitVec.toNat_append, ← Nat.shiftLeft_add_eq_or_of_lt v.isLt]
  rfl

theorem toBitVec_ofBitVec (v : BitVec 1) : (Sign.ofBitVec v).toBitVec = v := by
  revert v
  decide

theorem packComponents_fields (b : BitVec Format.binary64.numBits) :
    packComponents .binary64 (Sign.ofBitVec (unpackSign b)) (unpackExponent b) (unpackMantissa b) =
      b := by
  apply BitVec.eq_of_getLsbD_eq
  intro i hi
  simp only [packComponents, toBitVec_ofBitVec, unpackSign, unpackExponent, unpackMantissa,
    BitVec.getLsbD_append, BitVec.getLsbD_cast, BitVec.getLsbD_extractLsb]
  grind

/-! ### Packing -/

theorem mantissaBits_eq : Format.binary64.mantissaBits = 53 := rfl

theorem pack_subnormal (s : Sign) (v : BitVec 52) (hv : 0 < v.toNat) :
    UnpackedFloat.pack .binary64 (.finite s v.toNat (-1074) hv) =
      packComponents .binary64 s 0#11 v := by
  have hlog : v.toNat.log2 < 52 := (Nat.log2_lt hv.ne').2 v.isLt
  unfold UnpackedFloat.pack
  dsimp only
  rw [if_neg (by decide), if_neg (by rw [mantissaBits_eq]; omega)]
  congr 1
  rw [BitVec.ofNat_toNat, BitVec.setWidth_eq]

/-- The bit above the fraction is set in a normal double, so that its packed form leaves it out. -/
theorem pack_normal (s : Sign) (f : BitVec 11) (v : BitVec 52) (greatest : f.toNat < 2047)
    (h : 0 < (1#1 ++ v).toNat) :
    UnpackedFloat.pack .binary64 (.finite s (1#1 ++ v).toNat (f.toNat - 1075) h) =
      packComponents .binary64 s f v := by
  have hv : v.toNat < hiddenBit := v.isLt
  have mantissa := toNat_hidden_append v
  have biased : ((f.toNat : Int) - 1075 + Format.binary64.exponentBias +
      Format.binary64.mantissaBitsWithoutImplicit).toNat = f.toNat := by
    have hbias : Format.binary64.exponentBias = 1023 := rfl
    have hwidth : Format.binary64.mantissaBitsWithoutImplicit = 52 := rfl
    omega
  have hlog : (1#1 ++ v).toNat.log2 = 52 := by
    refine (Nat.log2_eq_iff h.ne').2 ⟨?_, ?_⟩ <;> rw [mantissa] <;> unfold hiddenBit at * <;> omega
  have hrange : 2 ^ Format.binary64.exponentBits = 2048 := rfl
  unfold UnpackedFloat.pack
  dsimp only
  rw [biased, if_neg (by omega), if_pos (by rw [hlog, mantissaBits_eq]), mantissa]
  congr 1
  · rw [BitVec.ofNat_toNat, BitVec.setWidth_eq]
  · apply BitVec.eq_of_toNat_eq
    change (hiddenBit + v.toNat) % 2 ^ 52 = v.toNat
    unfold hiddenBit at *
    omega

theorem pack_unpack (valid : Format.binary64.Valid b) :
    UnpackedFloat.pack .binary64 (UnpackedFloat.unpack .binary64 b) = b := by
  have hfields := packComponents_fields b
  unfold UnpackedFloat.unpack
  dsimp only
  split
  · next special =>
    split
    · next infinite =>
      rw [special, infinite] at hfields
      exact hfields
    · next payload => exact (valid.eq_packedNaN special payload).symm
  · next finite =>
    split
    · next least =>
      rw [least] at hfields ⊢
      split
      · next zero =>
        rw [zero] at hfields
        exact hfields
      · next nonzero =>
        have hpos : 0 < (unpackMantissa b).toNat :=
          Nat.pos_of_ne_zero fun h => nonzero (BitVec.eq_of_toNat_eq h)
        exact (pack_subnormal _ _ hpos).trans hfields
    · next normal =>
      have greatest : (unpackExponent b).toNat < 2047 := by
        refine Nat.lt_of_le_of_ne (Nat.le_of_lt_succ (unpackExponent b).isLt) fun h => ?_
        exact finite (BitVec.eq_of_toNat_eq h)
      exact (pack_normal _ _ _ greatest _).trans hfields

theorem ofBits_toBits (x : Float) : Float.ofBits x.toBits = x := by
  obtain ⟨⟨bits, valid⟩⟩ := x
  have packed := pack_unpack valid
  unfold Float.ofBits Float.toBits Float.Model.ofBits Float.Model.pack
  dsimp only
  congr 2
  exact congrArg UInt64.ofBitVec packed

/-! ### Parts -/

theorem sign_add_magnitude {bits magnitude : Nat} (hbits : bits < 2 ^ 64)
    (below : magnitude = bits % signBit) :
    (if bits / signBit % 2 == 1 then magnitude + signBit else magnitude) = bits := by
  unfold signBit at *
  by_cases negative : bits / 0x8000000000000000 % 2 = 1
  · rw [if_pos (beq_iff_eq.2 negative)]
    omega
  · rw [if_neg (mt beq_iff_eq.1 negative)]
    omega

theorem ofBits_finite {bits : Nat} (hbits : bits < 2 ^ 64)
    (finite : bits / hiddenBit % 2048 ≠ 2047) :
    ∃ negative m e, Parts.ofBits bits = .finite negative m e ∧ Representable m e ∧
      (if negative then magnitudeBits m e + signBit else magnitudeBits m e) = bits := by
  unfold Parts.ofBits
  dsimp only
  rw [if_neg finite]
  by_cases least : bits / hiddenBit % 2048 = 0
  · rw [if_pos least]
    refine ⟨_, _, _, rfl, ⟨?_, le_rfl, by decide, .inr rfl⟩, sign_add_magnitude hbits ?_⟩
    · unfold hiddenBit
      omega
    · unfold magnitudeBits signBit
      unfold hiddenBit at *
      omega
  · rw [if_neg least]
    refine ⟨_, _, _, rfl, ⟨?_, ?_, ?_, .inl (Nat.le_add_left _ _)⟩, sign_add_magnitude hbits ?_⟩
    · unfold hiddenBit
      omega
    · omega
    · omega
    · unfold magnitudeBits signBit
      unfold hiddenBit at *
      omega

theorem exponent_ne_of_isFinite (h : x.isFinite = true) :
    x.toBits.toNat / hiddenBit % 2048 ≠ 2047 := by
  intro special
  have hall : @unpackExponent .binary64 x.toBits.toBitVec = -1#11 :=
    BitVec.eq_of_toNat_eq (toNat_unpackExponent.trans special)
  unfold Float.isFinite Float.Model.isFinite Float.Model.unpack UnpackedFloat.unpack at h
  dsimp only at h
  split at h
  · split at h <;> cases h
  · next finite => exact finite hall

theorem isFinite_of_exponent_ne (h : x.toBits.toNat / hiddenBit % 2048 ≠ 2047) :
    x.isFinite = true := by
  have finite : @unpackExponent .binary64 x.toBits.toBitVec ≠ -1#11 := fun hall =>
    h (toNat_unpackExponent.symm.trans (congrArg BitVec.toNat hall))
  unfold Float.isFinite Float.Model.isFinite Float.Model.unpack UnpackedFloat.unpack
  dsimp only
  split
  · next hall => exact absurd hall finite
  · split
    · split <;> rfl
    · rfl

theorem parts_of_not_finite (h : x.isFinite = false) :
    Parts.ofFloat x = .nan ∨ ∃ negative, Parts.ofFloat x = .infinite negative := by
  have special : x.toBits.toNat / hiddenBit % 2048 = 2047 := by
    by_contra finite
    rw [isFinite_of_exponent_ne finite] at h
    cases h
  unfold Parts.ofFloat Parts.ofBits
  dsimp only
  rw [if_pos special]
  split
  · exact .inr ⟨_, rfl⟩
  · exact .inl rfl

theorem exists_parts (h : x.isFinite = true) :
    ∃ negative m e, Parts.ofFloat x = .finite negative m e ∧ Representable m e ∧
      floatOfBits negative (magnitudeBits m e) = x := by
  obtain ⟨negative, m, e, parts, representable, bits⟩ :=
    ofBits_finite x.toBits.toNat_lt (exponent_ne_of_isFinite h)
  refine ⟨negative, m, e, parts, representable, ?_⟩
  rw [floatOfBits, bits, UInt64.ofNat_toNat, ofBits_toBits]

/-! ### Given bits -/

/-- All bits but those of what is no number come back from the double that is built from them. -/
theorem toBits_ofBits {bits : UInt64}
    (h : bits.toNat / hiddenBit % 2048 = 2047 → bits.toNat % hiddenBit = 0) :
    (Float.ofBits bits).toBits = bits := by
  have valid : Format.binary64.Valid bits.toBitVec := by
    constructor
    intro special payload
    exfalso
    apply payload
    apply BitVec.eq_of_toNat_eq
    rw [toNat_unpackMantissa]
    exact h (toNat_unpackExponent.symm.trans (congrArg BitVec.toNat special))
  unfold Float.ofBits Float.toBits Float.Model.ofBits Float.Model.pack
  dsimp only
  rw [pack_unpack valid]

theorem toNat_toBits_floatOfBits (h : m ≤ infinityBits) :
    (floatOfBits negative m).toBits.toNat = if negative then m + signBit else m := by
  have hbits : (UInt64.ofNat (if negative then m + signBit else m)).toNat =
      if negative then m + signBit else m := by
    rw [UInt64.toNat_ofNat']
    apply Nat.mod_eq_of_lt
    unfold infinityBits hiddenBit at h
    unfold signBit
    split <;> omega
  rw [floatOfBits, toBits_ofBits, hbits]
  rw [hbits]
  unfold infinityBits at h
  unfold signBit
  unfold hiddenBit at *
  split <;> omega

theorem ofFloat_floatOfBits (h : m ≤ infinityBits) :
    Parts.ofFloat (floatOfBits negative m) =
      Parts.ofBits (if negative then m + signBit else m) := by
  rw [Parts.ofFloat, toNat_toBits_floatOfBits h]

theorem ofBits_magnitude (h : m ≤ infinityBits) :
    Parts.ofBits (if negative then m + signBit else m) =
      if m = infinityBits then .infinite negative
      else if m < hiddenBit then .finite negative m (-1074)
      else .finite negative (m % hiddenBit + hiddenBit) ((m / hiddenBit : Nat) - 1075) := by
  have bound : m < signBit := by
    unfold infinityBits hiddenBit at h
    unfold signBit
    omega
  have sign : ((if negative then m + signBit else m) / signBit % 2 == 1) = negative := by
    cases negative with
    | false =>
      rw [if_neg (by decide), Nat.div_eq_of_lt bound]
      rfl
    | true =>
      rw [if_pos rfl, Nat.add_div_right _ (by decide), Nat.div_eq_of_lt bound]
      rfl
  have biased : (if negative then m + signBit else m) / hiddenBit % 2048 = m / hiddenBit := by
    unfold infinityBits at h
    unfold signBit
    unfold hiddenBit at *
    split <;> omega
  have fraction : (if negative then m + signBit else m) % hiddenBit = m % hiddenBit := by
    unfold signBit
    unfold hiddenBit at *
    split <;> omega
  have positive : 0 < hiddenBit := by decide
  unfold Parts.ofBits
  dsimp only
  rw [sign, biased, fraction]
  by_cases infinite : m = infinityBits
  · subst infinite
    rw [if_pos rfl, if_pos (by decide), if_pos (by decide)]
  · have finite : m / hiddenBit ≠ 2047 := by
      intro top
      have := Nat.div_add_mod m hiddenBit
      rw [top] at this
      unfold infinityBits at h infinite
      omega
    rw [if_neg finite, if_neg infinite]
    by_cases least : m < hiddenBit
    · rw [if_pos (Nat.div_eq_of_lt least), if_pos least, Nat.mod_eq_of_lt least]
    · rw [if_neg (Nat.div_pos (Nat.not_lt.1 least) positive).ne', if_neg least]

/-! ### Zero -/

theorem unpack_eq_zero_iff :
    (∃ s, UnpackedFloat.unpack .binary64 b = .zero s) ↔
      unpackExponent b = 0#11 ∧ unpackMantissa b = 0#52 := by
  unfold UnpackedFloat.unpack
  dsimp only
  constructor
  · rintro ⟨s, h⟩
    split at h
    · split at h <;> cases h
    · split at h
      · next least =>
        split at h
        · next zero => exact ⟨least, zero⟩
        · cases h
      · cases h
  · rintro ⟨least, zero⟩
    have finite : unpackExponent b ≠ -1#11 := by
      rw [least]
      decide
    rw [if_neg finite, if_pos least, dif_pos zero]
    exact ⟨_, rfl⟩

theorem unpacked_beq_zero_iff {u : UnpackedFloat} :
    u.beq (.zero .positive) = true ↔ ∃ s, u = .zero s := by
  cases u with
  | infinity s => cases s <;> simp [UnpackedFloat.beq, UnpackedFloat.compare]
  | notANumber => simp [UnpackedFloat.beq, UnpackedFloat.compare]
  | zero s => simp [UnpackedFloat.beq, UnpackedFloat.compare]
  | finite s m e h => cases s <;> simp [UnpackedFloat.beq, UnpackedFloat.compare]

theorem beq_zero_iff : (x == 0) = true ↔ x.toBits.toNat % signBit = 0 := by
  have zero : (0 : Float).toModel.unpack = .zero .positive := by rfl
  have unpacked : (x == 0) =
      (UnpackedFloat.unpack .binary64 x.toBits.toBitVec).beq (.zero .positive) := by
    rw [← zero]
    rfl
  rw [unpacked, unpacked_beq_zero_iff, unpack_eq_zero_iff, ← BitVec.toNat_inj, ← BitVec.toNat_inj,
    toNat_unpackExponent, toNat_unpackMantissa]
  change x.toBits.toNat / hiddenBit % 2048 = 0 ∧ x.toBits.toNat % hiddenBit = 0 ↔ _
  unfold signBit hiddenBit
  omega

theorem floatOfBits_beq_zero_iff (h : m ≤ infinityBits) :
    (floatOfBits negative m == 0) = true ↔ m = 0 := by
  have magnitude : (if negative then m + signBit else m) % signBit = m := by
    unfold infinityBits hiddenBit at h
    unfold signBit
    split <;> omega
  rw [beq_zero_iff, toNat_toBits_floatOfBits h, magnitude]

theorem floatOfInt_beq_zero_iff {n : Int} : (floatOfInt n == 0) = true ↔ n = 0 := by
  rw [floatOfInt, floatOfBits_beq_zero_iff (nearestBits_le _ _), nearestBits_eq_zero_iff,
    Int.natAbs_eq_zero]

/-- Zero has two signs, and no other double equals it. -/
theorem beq_zero_iff_eq : (x == 0) = true ↔ x = 0 ∨ x = -0.0 := by
  have plus : (0 : Float) = floatOfBits false 0 := by rfl
  have minus : (-0.0 : Float) = floatOfBits true 0 := by decide
  rw [plus, minus]
  constructor
  · intro zero
    have magnitude := beq_zero_iff.1 zero
    have bound := x.toBits.toNat_lt
    have bits : x.toBits.toNat = 0 ∨ x.toBits.toNat = signBit := by
      unfold signBit at *
      omega
    rw [← ofBits_toBits x, ← UInt64.ofNat_toNat (x := x.toBits)]
    rcases bits with bits | bits <;> rw [bits]
    · exact .inl rfl
    · exact .inr rfl
  · rintro (rfl | rfl)
    · exact (floatOfBits_beq_zero_iff (Nat.zero_le _)).2 rfl
    · exact (floatOfBits_beq_zero_iff (Nat.zero_le _)).2 rfl

end LazyBinding.Decimal
