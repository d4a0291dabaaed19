import LazyBinding.Proofs.DoubleBits
import LazyBinding.Proofs.NumberText
import LazyBinding.Proofs.ShortestSpelling
import Mathlib.Data.List.TakeWhile

/-!
# Written numbers read back

Integers are written with all their digits. A double is written with the digits of its shortest
spelling, in positional notation or with an exponent; either stands for the same value, and so it is
read back as the same double.
-/
namespace LazyBinding.Json

open Decimal

variable {digits : List Char} {m : Nat} {e leading : Int} {x : Float}

/-! ### Digits of a natural -/

theorem digitChar_ne_zero : ∀ n < 10, 0 < n → Nat.digitChar n ≠ '0' := by decide

theorem head?_toDigits {n : Nat} (h : 0 < n) : (Nat.toDigits 10 n).head? ≠ some '0' := by
  induction n using Nat.strongRecOn with
  | _ n ih =>
    by_cases single : n < 10
    · rw [Nat.toDigits_of_lt_base single]
      intro zero
      exact digitChar_ne_zero n single h (Option.some_inj.1 zero)
    · rw [Nat.toDigits_of_base_le (by decide) (by omega),
        List.head?_append_of_ne_nil _ Nat.toDigits_ne_nil]
      exact ih (n / 10) (by omega) (by omega)

theorem isWhole_toDigits (n : Nat) : IsWhole (Nat.toDigits 10 n) := by
  refine ⟨areDigits_toDigits n, Nat.toDigits_ne_nil, ?_⟩
  by_cases zero : n = 0
  · subst zero
    exact .inl rfl
  · exact .inr (head?_toDigits (Nat.pos_of_ne_zero zero))

/-! ### Significant digits -/

/-- Digits that neither are empty nor start with a zero. -/
structure AreSignificant (digits : List Char) : Prop where
  areDigits : AreDigits digits
  nonempty : digits ≠ []
  nonzero : digits.head? ≠ some '0'

theorem exists_zeros (a : Numeral) :
    ∃ zeros, Nat.toDigits 10 a.coefficient = significantDigits a ++ List.replicate zeros '0' := by
  let reversed := (Nat.toDigits 10 a.coefficient).reverse
  have split : reversed.takeWhile (· == '0') ++ reversed.dropWhile (· == '0') = reversed :=
    List.takeWhile_append_dropWhile
  have zeros : reversed.takeWhile (· == '0') =
      List.replicate (reversed.takeWhile (· == '0')).length '0' := by
    refine List.eq_replicate_of_mem fun c hc => ?_
    have zero := List.mem_takeWhile_imp hc
    exact beq_iff_eq.1 zero
  refine ⟨(reversed.takeWhile (· == '0')).length, ?_⟩
  rw [zeros] at split
  have whole := congrArg List.reverse split
  rw [List.reverse_append, List.reverse_replicate, List.reverse_reverse] at whole
  exact whole.symm

theorem areSignificant_significantDigits {a : Numeral} (h : a.coefficient ≠ 0) :
    AreSignificant (significantDigits a) := by
  obtain ⟨zeros, split⟩ := exists_zeros a
  have nonzero := head?_toDigits (Nat.pos_of_ne_zero h)
  have nonempty : significantDigits a ≠ [] := by
    intro empty
    rw [split, empty, List.nil_append] at nonzero
    cases zeros with
    | zero =>
      rw [empty] at split
      exact Nat.toDigits_ne_nil split
    | succ zeros => exact nonzero rfl
  refine ⟨?_, nonempty, ?_⟩
  · intro c hc
    apply areDigits_toDigits a.coefficient
    rw [split]
    exact List.mem_append_left _ hc
  · rw [split, List.head?_append_of_ne_nil _ nonempty] at nonzero
    exact nonzero

/-- The value of digits of which the first one stands for a power of ten. -/
def digitsAt (digits : List Char) (leading : Int) : ℚ :=
  (Nat.ofDigitChars 10 digits 0 : ℚ) * 10 ^ (leading + 1 - digits.length)

theorem value_significantDigits (a : Numeral) :
    a.value = digitsAt (significantDigits a)
      (a.exponent + (digitCount a.coefficient : Int) - 1) := by
  obtain ⟨zeros, split⟩ := exists_zeros a
  have coefficient : a.coefficient = 10 ^ zeros * Nat.ofDigitChars 10 (significantDigits a) 0 := by
    have back := Nat.ofDigitChars_ten_toDigits (n := a.coefficient)
    rw [split, Nat.ofDigitChars_append, Nat.ofDigitChars_replicate_zero] at back
    exact back.symm
  have count : (digitCount a.coefficient : Int) = (significantDigits a).length + zeros := by
    rw [digitCount, split, List.length_append, List.length_replicate]
    exact Nat.cast_add _ _
  have exponent : a.exponent + (digitCount a.coefficient : Int) - 1 + 1 -
      (significantDigits a).length = zeros + a.exponent := by
    omega
  rw [digitsAt, exponent, zpow_add₀ (by decide), zpow_natCast, Numeral.value, coefficient]
  push_cast
  ring

/-! ### Notations -/

/-- A text spells a value as a number that is not whole. -/
def Spells (text : List Char) (value : ℚ) : Prop :=
  ∃ p : Spelling, p.text = text ∧ p.isLone = false ∧ p.numeral.value = value

theorem areDigits_zeros (zeros : Nat) : AreDigits (List.replicate zeros '0') := by
  intro c hc
  rw [List.eq_of_mem_replicate hc]
  decide

theorem AreDigits.append {text text' : List Char} (h : AreDigits text) (h' : AreDigits text') :
    AreDigits (text ++ text') :=
  List.forall_mem_append.2 ⟨h, h'⟩

theorem AreSignificant.isWhole_append (h : AreSignificant digits) {more : List Char}
    (hmore : AreDigits more) : IsWhole (digits ++ more) := by
  refine ⟨h.areDigits.append hmore, List.append_ne_nil_of_left_ne_nil h.nonempty _, .inr ?_⟩
  rw [List.head?_append_of_ne_nil _ h.nonempty]
  exact h.nonzero

theorem AreSignificant.isWhole_take (h : AreSignificant digits) (n : Nat) :
    IsWhole (digits.take (n + 1)) := by
  obtain ⟨c, others, rfl⟩ := List.exists_cons_of_ne_nil h.nonempty
  refine ⟨fun d hd => h.areDigits d (List.mem_of_mem_take hd), List.cons_ne_nil _ _, .inr ?_⟩
  exact h.nonzero

theorem ofDigitChars_zeros_append (zeros : Nat) (digits : List Char) :
    Nat.ofDigitChars 10 (List.replicate zeros '0' ++ digits) 0 = Nat.ofDigitChars 10 digits 0 := by
  rw [Nat.ofDigitChars_append, Nat.ofDigitChars_replicate_zero, Nat.mul_zero]

theorem spells_fraction (h : AreSignificant digits) (below : leading < 0) :
    Spells (['0', '.'] ++ List.replicate ((-leading).toNat - 1) '0' ++ digits)
      (digitsAt digits leading) := by
  refine ⟨⟨['0'], some (List.replicate ((-leading).toNat - 1) '0' ++ digits), none, ?_, ?_, ?_⟩,
    ?_, rfl, ?_⟩
  · exact isWhole_toDigits 0
  · rintro _ ⟨⟩
    exact ⟨(areDigits_zeros _).append h.areDigits, List.append_ne_nil_of_right_ne_nil _ h.nonempty⟩
  · intro e he
    cases he
  · simp [Spelling.text, Spelling.fractionText, Spelling.exponentText]
  · have coefficient := ofDigitChars_zeros_append ((-leading).toNat - 1 + 1) digits
    rw [List.replicate_succ, List.cons_append] at coefficient
    have exponent : (0 : Int) - (List.replicate ((-leading).toNat - 1) '0' ++ digits).length =
        leading + 1 - digits.length := by
      rw [List.length_append, List.length_replicate]
      omega
    unfold Numeral.value Spelling.numeral digitsAt
    dsimp only [Option.getD, List.cons_append, List.nil_append]
    rw [coefficient, exponent]

theorem spells_padded (h : AreSignificant digits) (zeros : Nat) :
    Spells (digits ++ List.replicate zeros '0' ++ ['.', '0'])
      (digitsAt digits (digits.length + zeros - 1)) := by
  refine ⟨⟨digits ++ List.replicate zeros '0', some ['0'], none, ?_, ?_, ?_⟩, ?_, rfl, ?_⟩
  · exact h.isWhole_append (areDigits_zeros zeros)
  · rintro _ ⟨⟩
    exact ⟨areDigits_zeros 1, List.cons_ne_nil _ _⟩
  · intro e he
    cases he
  · simp [Spelling.text, Spelling.fractionText, Spelling.exponentText]
  · have coefficient : Nat.ofDigitChars 10 (digits ++ List.replicate zeros '0' ++ ['0']) 0 =
        10 ^ (zeros + 1) * Nat.ofDigitChars 10 digits 0 := by
      rw [List.append_assoc, ← List.replicate_succ', Nat.ofDigitChars_append,
        Nat.ofDigitChars_replicate_zero]
    have exponent : (digits.length : Int) + zeros - 1 + 1 - digits.length = zeros := by omega
    have point : (0 : Int) - ['0'].length = -1 := rfl
    unfold Numeral.value Spelling.numeral digitsAt
    dsimp only [Option.getD]
    rw [coefficient, exponent, point, zpow_natCast, zpow_neg_one]
    push_cast
    ring

theorem spells_split (h : AreSignificant digits) (n : Nat) (long : n + 1 < digits.length) :
    Spells (digits.take (n + 1) ++ '.' :: digits.drop (n + 1)) (digitsAt digits n) := by
  refine ⟨⟨digits.take (n + 1), some (digits.drop (n + 1)), none, h.isWhole_take n, ?_, ?_⟩, ?_,
    rfl, ?_⟩
  · rintro _ ⟨⟩
    refine ⟨fun c hc => h.areDigits c (List.mem_of_mem_drop hc), ?_⟩
    intro empty
    have := List.drop_eq_nil_iff.1 empty
    omega
  · intro e he
    cases he
  · simp [Spelling.text, Spelling.fractionText, Spelling.exponentText]
  · have exponent : (0 : Int) - (digits.drop (n + 1)).length = n + 1 - digits.length := by
      rw [List.length_drop]
      omega
    unfold Numeral.value Spelling.numeral digitsAt
    dsimp only [Option.getD]
    rw [List.take_append_drop, exponent]

theorem spells_plainText (h : AreSignificant digits) (leading : Int) :
    Spells (plainText true digits leading) (digitsAt digits leading) := by
  unfold plainText
  dsimp only
  by_cases below : leading < 0
  · rw [if_pos below]
    exact spells_fraction h below
  · rw [if_neg below]
    obtain ⟨n, rfl⟩ := Int.eq_ofNat_of_zero_le (Int.not_lt.1 below)
    rw [Int.toNat_natCast]
    by_cases padded : digits.length ≤ n + 1
    · rw [if_pos padded, if_pos rfl]
      have filled := spells_padded h (n + 1 - digits.length)
      rwa [show (digits.length : Int) + (n + 1 - digits.length : Nat) - 1 = n by omega] at filled
    · rw [if_neg padded]
      exact spells_split h n (Nat.not_le.1 padded)

theorem spells_exponentText (h : AreSignificant digits) (small : leading.natAbs ≤ maxExponent) :
    Spells (exponentText digits leading) (digitsAt digits leading) := by
  have nonempty : 0 < digits.length := List.length_pos_iff.2 h.nonempty
  have others : AreDigits (digits.drop 1) := fun c hc => h.areDigits c (List.mem_of_mem_drop hc)
  refine ⟨⟨digits.take 1, if (digits.drop 1).isEmpty then none else some (digits.drop 1),
    some leading, h.isWhole_take 0, ?_, ?_⟩, ?_, ?_, ?_⟩
  · split
    · rintro _ ⟨⟩
    · next more =>
      rintro _ ⟨⟩
      exact ⟨others, fun empty => more (List.isEmpty_iff.2 empty)⟩
  · rintro _ ⟨⟩
    exact small
  · unfold Spelling.text Spelling.fractionText Spelling.exponentText exponentText
    dsimp only
    split <;> simp
  · exact Bool.and_false _
  · have fraction : (if (digits.drop 1).isEmpty then none else some (digits.drop 1)).getD [] =
        digits.drop 1 := by
      split
      · next empty => exact (List.isEmpty_iff.1 empty).symm
      · rfl
    have exponent : leading - (digits.drop 1).length = leading + 1 - digits.length := by
      rw [List.length_drop]
      omega
    unfold Numeral.value Spelling.numeral digitsAt
    dsimp only
    rw [fraction, List.take_append_drop, Option.getD_some, exponent]

/-! ### Doubles -/

theorem maxExponent_large : 331 < maxExponent := by decide

theorem zero_spells (h : Representable 0 e) :
    ∃ p : Spelling, p.text = plainText true ['0'] 0 ∧ p.isLone = false ∧
      p.numeral.bits = magnitudeBits 0 e := by
  have least : e = -1074 := by
    have positive : 0 < hiddenBit := by decide
    exact h.normal.resolve_left (Nat.not_le.2 positive)
  subst least
  refine ⟨⟨['0'], some ['0'], none, isWhole_toDigits 0, ?_, ?_⟩, rfl, rfl, rfl⟩
  · rintro _ ⟨⟩
    exact ⟨areDigits_zeros 1, List.cons_ne_nil _ _⟩
  · intro e he
    cases he

/-- The written magnitude of a double spells the double. -/
theorem magnitude_spells (h : Representable m e) :
    ∃ p : Spelling, p.text = numberLayout.magnitude m e ∧ p.isLone = false ∧
      p.numeral.bits = magnitudeBits m e := by
  unfold Layout.magnitude
  by_cases zero : m = 0
  · subst zero
    rw [if_pos rfl]
    exact zero_spells h
  · rw [if_neg zero]
    have positive := Nat.pos_of_ne_zero zero
    have reads := shortest_bits numberLayout.tie h positive
    obtain ⟨nonzero, large, small⟩ := shortest_range numberLayout.tie h positive
    have significant := areSignificant_significantDigits nonzero
    have value := value_significantDigits (shortest numberLayout.tie m e)
    have spells : ∀ text, Spells text (shortest numberLayout.tie m e).value →
        ∃ p : Spelling, p.text = text ∧ p.isLone = false ∧
          p.numeral.bits = magnitudeBits m e := by
      rintro _ ⟨p, rfl, inexact, same⟩
      exact ⟨p, rfl, inexact, (Numeral.bits_congr same).trans reads⟩
    apply spells
    rw [value, show numberLayout.positional = some (-5, 15) from rfl]
    dsimp only
    split
    · exact spells_plainText significant _
    · refine spells_exponentText significant ?_
      have := maxExponent_large
      omega

/-- A spelling behind a sign. -/
def Spelling.signed (p : Spelling) (negative : Bool) : List Char :=
  if negative then '-' :: p.text else p.text

/-- The text of a double spells it. -/
theorem exists_spelling (h : x.isFinite = true) :
    ∃ (negative : Bool) (p : Spelling), (numberLayout.write x).toList = p.signed negative ∧
      p.isLone = false ∧ p.numeral.bits ≠ infinityBits ∧ p.numeral.toFloat negative = x := by
  obtain ⟨negative, m, e, parts, representable, back⟩ := exists_parts h
  obtain ⟨p, text, inexact, bits⟩ := magnitude_spells representable
  refine ⟨negative, p, ?_, inexact, ?_, ?_⟩
  · unfold Layout.write
    rw [parts, Spelling.signed, text]
    exact String.toList_ofList
  · rw [bits]
    exact representable.magnitudeBits_lt.ne
  · rwa [Numeral.toFloat, bits]

section

variable [DoubleReader]

/-- A text that the reader of numbers reads as a document, whatever delimits it. -/
def IsNumberText (text : List Char) (document : Json) : Prop :=
  ∃ (negative : Bool) (p : Spelling), text = p.signed negative ∧
    ∀ rest, Delimited rest → Reads (readNumber negative) (utf8 p.text ++ rest) document rest

theorem isNumberText_float {negative : Bool} {p : Spelling} (inexact : p.isLone = false)
    (double : DoubleReader.double? (p.written negative) = some x) :
    IsNumberText (p.signed negative) (.float x) :=
  ⟨negative, p, rfl, fun _ stop => p.readNumber_float inexact double stop⟩

end

/-! ### Integers -/

theorem toList_toString (n : Int) :
    (toString n).toList =
      if n < 0 then '-' :: Nat.toDigits 10 n.natAbs else Nat.toDigits 10 n.natAbs := by
  cases n with
  | ofNat n =>
    rw [Int.ofNat_eq_natCast, if_neg (Int.not_lt.2 (Int.natCast_nonneg n))]
    change (toString n).toList = Nat.toDigits 10 n
    rw [Nat.toString_eq_ofList_toDigits, String.toList_ofList]
  | negSucc n =>
    rw [if_pos (Int.negSucc_lt_zero n)]
    change ("-" ++ toString (n + 1)).toList = '-' :: Nat.toDigits 10 (n + 1)
    rw [Nat.toString_eq_ofList_toDigits, String.toList_append, String.toList_ofList,
      String.toList_ofList]
    rfl

/-- The spelling of a natural. -/
def Spelling.ofNat (n : Nat) : Spelling where
  whole := Nat.toDigits 10 n
  fraction := none
  exponent := none
  isWhole := isWhole_toDigits n
  isFraction := by
    intro digits h
    cases h
  isExponent := by
    intro e h
    cases h

theorem Spelling.text_ofNat (n : Nat) : (Spelling.ofNat n).text = Nat.toDigits 10 n :=
  List.append_nil _

theorem Spelling.coefficient_ofNat (n : Nat) : (Spelling.ofNat n).numeral.coefficient = n := by
  change Nat.ofDigitChars 10 (Nat.toDigits 10 n ++ []) 0 = n
  rw [List.append_nil, Nat.ofDigitChars_ten_toDigits]

theorem isNumberText_int [DoubleReader] {n : Int} (least : Int64.minValue.toInt ≤ n)
    (greatest : n < UInt64.size) : IsNumberText (toString n).toList (.int n) := by
  have fits : wholeNumber? (n < 0) n.natAbs = some n := by
    unfold wholeNumber?
    by_cases negative : n < 0
    · have magnitude : -(n.natAbs : Int) = n := by omega
      rw [if_pos (decide_eq_true negative), magnitude, if_pos ⟨by omega, least⟩]
    · have magnitude : (n.natAbs : Int) = n := by omega
      rw [if_neg (mt of_decide_eq_true negative), if_pos (by omega), magnitude]
  refine ⟨n < 0, .ofNat n.natAbs, ?_, ?_⟩
  · rw [toList_toString, Spelling.signed, Spelling.text_ofNat]
    simp only [decide_eq_true_iff]
  · intro rest stop
    refine (Spelling.ofNat n.natAbs).readNumber_int rfl ?_ stop
    rw [Spelling.coefficient_ofNat]
    exact fits

end LazyBinding.Json
