import LazyBinding.Proofs.DocumentText

/-!
# Readers are local

A reader that finds a value has taken some bytes for it and has seen at most the first byte behind
them. With other bytes behind it takes the same ones for the same value, as long as those do not go
on with a number that has ended.
-/
namespace LazyBinding.Json

variable {α : Type} {a : α} {c c' : Cursor} {rest rest' bytes taken : List UInt8}

/-- The first byte is the same, or there is none in either. -/
def SameHead (rest rest' : List UInt8) : Prop := rest'.head? = rest.head?

/-- The other bytes end a number where these do. -/
def Stops (rest rest' : List UInt8) : Prop := SameHead rest rest' ∨ Delimited rest'

/-- From one cursor to another, a reader takes some bytes for a value, and so it does wherever they
stand, with bytes behind them that may replace the ones that are there. -/
structure Takes (Replaces : List UInt8 → List UInt8 → Prop)
    (reader : Cursor → Except Fault (α × Cursor)) (c : Cursor) (taken : List UInt8) (a : α)
    (c' : Cursor) : Prop where
  split : c.rest = taken ++ c'.rest
  again : ∀ rest', Replaces c'.rest rest' → Reads reader (taken ++ rest') a rest'

theorem stops_append (taken : List UInt8) (h : Stops rest rest') :
    Stops (taken ++ rest) (taken ++ rest') := by
  cases taken with
  | nil => exact h
  | cons byte taken => exact Or.inl rfl

theorem sameHead_append (rest rest' : List UInt8) (h : taken ≠ []) :
    SameHead (taken ++ rest) (taken ++ rest') := by
  cases taken with
  | nil => exact absurd rfl h
  | cons byte taken => rfl

theorem SameHead.append (h : SameHead rest rest') (taken : List UInt8) :
    SameHead (taken ++ rest) (taken ++ rest') := by
  cases taken with
  | nil => exact h
  | cons byte taken => rfl

theorem SameHead.noBlank (h : SameHead rest rest') (noBlank : NoBlank rest) : NoBlank rest' := by
  unfold NoBlank
  rw [h]
  exact noBlank

theorem Stops.noDigit (h : Stops rest rest') (noDigit : NoDigit rest) : NoDigit rest' := by
  rcases h with same | stop
  · unfold NoDigit
    rw [same]
    exact noDigit
  · exact stop.noDigit

section Readers

variable {β γ : Type} {b : β} {byte : UInt8} {Replaces Replaces' : List UInt8 → List UInt8 → Prop}
  {reader : Cursor → Except Fault (α × Cursor)}

theorem Takes.mono (takes : Takes Replaces reader c taken a c')
    (weaker : ∀ rest', Replaces' c'.rest rest' → Replaces c'.rest rest') :
    Takes Replaces' reader c taken a c' :=
  ⟨takes.split, fun rest' replaces => takes.again rest' (weaker rest' replaces)⟩

theorem Takes.map (takes : Takes Replaces reader c taken a c') (f : α → β) :
    Takes Replaces (fun c => (reader c).map fun (a, c) => (f a, c)) c taken (f a) c' := by
  refine ⟨takes.split, fun rest' replaces position => ?_⟩
  obtain ⟨position', read⟩ := takes.again rest' replaces position
  refine ⟨position', ?_⟩
  rw [read]
  rfl

theorem exists_of_map {read : Except Fault (α × Cursor)} (f : α → β)
    (h : (read.map fun (a, c) => (f a, c)) = .ok (b, c')) : ∃ a, read = .ok (a, c') ∧ f a = b := by
  cases read with
  | error e => cases h
  | ok read =>
    cases h
    exact ⟨_, rfl, rfl⟩

theorem exists_of_bind {read : Except Fault α} {f : α → Except Fault β} (h : read >>= f = .ok b) :
    ∃ a, read = .ok a ∧ f a = .ok b := by
  cases read with
  | error e => cases h
  | ok a => exact ⟨a, rfl, h⟩

theorem Takes.behind (h : c.rest = byte :: bytes)
    (takes : Takes Replaces reader c.advance taken a c') :
    Takes Replaces (fun c => reader c.advance) c (byte :: taken) a c' := by
  obtain ⟨_, position⟩ := c
  dsimp only at h
  subst h
  exact ⟨congrArg (byte :: ·) takes.split, fun rest' replaces position =>
    takes.again rest' replaces (position.after byte)⟩

theorem Takes.andThen {result : γ} {c₁ c₂ : Cursor} {taken₁ taken₂ : List UInt8}
    {second : Cursor → Except Fault (β × Cursor)} {both : Cursor → Except Fault (γ × Cursor)}
    (takes₁ : Takes Replaces reader c taken₁ a c₁) (takes₂ : Takes Replaces' second c₁ taken₂ b c₂)
    (still : ∀ rest', Replaces' c₂.rest rest' → Replaces (taken₂ ++ c₂.rest) (taken₂ ++ rest'))
    (combine : ∀ {d d₁ d₂ : Cursor}, reader d = .ok (a, d₁) → second d₁ = .ok (b, d₂) →
      both d = .ok (result, d₂)) :
    Takes Replaces' both c (taken₁ ++ taken₂) result c₂ := by
  refine ⟨?_, fun rest' replaces position => ?_⟩
  · rw [takes₁.split, takes₂.split, List.append_assoc]
  · have replaces₁ := still rest' replaces
    rw [← takes₂.split] at replaces₁
    obtain ⟨position₁, read₁⟩ := takes₁.again _ replaces₁ position
    obtain ⟨position₂, read₂⟩ := takes₂.again rest' replaces position₁
    rw [List.append_assoc]
    exact ⟨position₂, combine read₁ read₂⟩

end Readers

theorem Stops.head?_ne {byte : UInt8} (h : Stops rest rest') (other : rest.head? ≠ some byte)
    (stopped : Delimited rest' → rest'.head? ≠ some byte) : rest'.head? ≠ some byte := by
  rcases h with same | stop
  · rw [same]
    exact other
  · exact stopped stop

/-! ### Blanks and words -/

theorem exists_blanks (c : Cursor) : ∃ blanks, AreBlanks blanks ∧
    c.rest = blanks ++ c.skipBlanks.rest ∧ NoBlank c.skipBlanks.rest := by
  obtain ⟨bytes, position⟩ := c
  unfold Cursor.skipBlanks
  dsimp only
  induction bytes generalizing position with
  | nil => exact ⟨[], areBlanks_nil, rfl, by rintro _ ⟨⟩⟩
  | cons byte bytes ih =>
    rw [Cursor.skipBlanksOf]
    by_cases blank : Cursor.isBlankByte byte = true
    · rw [if_pos blank]
      obtain ⟨blanks, areBlanks, split, noBlank⟩ := ih (position.after byte)
      exact ⟨byte :: blanks, List.forall_mem_cons.2 ⟨blank, areBlanks⟩,
        congrArg (byte :: ·) split, noBlank⟩
    · rw [if_neg blank]
      refine ⟨[], areBlanks_nil, rfl, ?_⟩
      rintro _ ⟨⟩
      exact Bool.eq_false_iff.2 blank

theorem skipBlanks_skipBlanks (c : Cursor) : c.skipBlanks.skipBlanks = c.skipBlanks := by
  obtain ⟨_, _, _, noBlank⟩ := exists_blanks c
  exact skipBlanks_noBlank noBlank c.skipBlanks.position

theorem Takes.blanks {Replaces : List UInt8 → List UInt8 → Prop}
    {reader : Cursor → Except Fault (α × Cursor)} (skips : ∀ c, reader c = reader c.skipBlanks)
    (takes : Takes Replaces reader c.skipBlanks taken a c')
    (same : ∀ rest', Replaces c'.rest rest' → SameHead (taken ++ c'.rest) (taken ++ rest')) :
    ∃ blanks, Takes Replaces reader c (blanks ++ taken) a c' := by
  obtain ⟨blanks, areBlanks, split, noBlank⟩ := exists_blanks c
  refine ⟨blanks, ?_, fun rest' replaces position => ?_⟩
  · rw [split, takes.split, List.append_assoc]
  · rw [takes.split] at noBlank
    obtain ⟨position₁, skipped⟩ :=
      skipBlanks_blanks areBlanks ((same rest' replaces).noBlank noBlank) position
    rw [List.append_assoc, skips, skipped]
    exact takes.again rest' replaces position₁

theorem peek?_eq_some {byte : UInt8} (h : c.peek? = some byte) :
    ∃ rest, c = ⟨byte :: rest, c.position⟩ := by
  obtain ⟨_ | ⟨first, rest⟩, position⟩ := c
  · cases h
  · cases h
    exact ⟨rest, rfl⟩

theorem readLetters_split {letters : List UInt8} (h : readLetters c letters = .ok c') :
    c.rest = letters ++ c'.rest := by
  induction letters generalizing c with
  | nil =>
    cases h
    rfl
  | cons letter letters ih =>
    rw [readLetters] at h
    split at h
    · cases h
    · next byte hpeek =>
      obtain ⟨rest, hc⟩ := peek?_eq_some hpeek
      rw [hc] at h ⊢
      split at h
      · next same =>
        rw [beq_iff_eq.1 same, List.cons_append]
        exact congrArg (letter :: ·) (ih h)
      · cases h

theorem readLetters_letters (letters rest : List UInt8) (position : Position) :
    ∃ position', readLetters ⟨letters ++ rest, position⟩ letters = .ok ⟨rest, position'⟩ := by
  induction letters generalizing position with
  | nil => exact ⟨position, rfl⟩
  | cons letter letters ih =>
    rw [List.cons_append, readLetters, Cursor.peek?_cons, Cursor.advance_cons]
    dsimp only
    rw [if_pos (beq_self_eq_true letter)]
    exact ih _

/-! ### Strings -/

theorem readStringBytes_takes {mode : StringMode} {position : Position} {text : List UInt8}
    (h : readStringBytes mode position bytes = .ok (text, c')) :
    ∃ taken, bytes = taken ++ c'.rest ∧ ∀ rest', ReadsInside mode (taken ++ rest') text rest' := by
  induction bytes generalizing mode position text with
  | nil => cases h
  | cons byte bytes ih =>
    rw [readStringBytes] at h
    split at h
    · next step =>
      cases h
      exact ⟨[byte], rfl, fun rest' => .done step⟩
    · cases h
    · next mode' more step =>
      split at h
      · cases h
      · next others behind read =>
        cases h
        obtain ⟨taken, split, again⟩ := ih read
        refine ⟨byte :: taken, congrArg (byte :: ·) split, fun rest' => ?_⟩
        exact .go step (again rest')

theorem readString_takes {s : String} (h : readString c = .ok (s, c')) :
    ∃ taken, Takes (fun _ _ => True) readString c taken s c' := by
  unfold readString at h
  split at h
  · cases h
  · next text behind read =>
    split at h
    · next valid =>
      cases h
      obtain ⟨taken, split, again⟩ := readStringBytes_takes read
      refine ⟨taken, split, fun rest' _ position => ?_⟩
      obtain ⟨position', read'⟩ := again rest' position
      refine ⟨position', ?_⟩
      dsimp only at read'
      rw [readString]
      dsimp only
      rw [read']
      dsimp only
      rw [valid]
    · cases h

/-! ### Numbers -/

theorem exists_digits (bytes : List UInt8) : ∃ digits others, bytes = digits ++ others ∧
    (∀ byte ∈ digits, isDigitByte byte = true) ∧ NoDigit others := by
  refine ⟨bytes.takeWhile isDigitByte, bytes.dropWhile isDigitByte,
    List.takeWhile_append_dropWhile.symm, fun byte hbyte => List.mem_takeWhile_imp hbyte, ?_⟩
  intro byte hbyte
  have stopped := List.head?_dropWhile_not isDigitByte bytes
  rw [hbyte] at stopped
  exact stopped

theorem takeDigits_takes {digits : List Nat} (h : takeDigits c = (digits, c')) :
    ∃ taken, Takes Stops (fun c => .ok (takeDigits c)) c taken digits c' ∧
      (taken = [] → NoDigit c.rest) := by
  obtain ⟨bytes, position⟩ := c
  obtain ⟨taken, others, rfl, inside, noDigit⟩ := exists_digits bytes
  obtain ⟨position', taking⟩ := takeDigits_append inside noDigit position
  cases taking.symm.trans h
  refine ⟨taken, ⟨rfl, fun rest' stops position => ?_⟩, ?_⟩
  · obtain ⟨position', taking'⟩ := takeDigits_append inside (stops.noDigit noDigit) position
    exact ⟨position', congrArg Except.ok taking'⟩
  · rintro rfl
    exact noDigit

theorem readWhole_zero (bytes : List UInt8) (position : Position) :
    readWhole ⟨0x30 :: bytes, position⟩ =
      match bytes.head? with
      | some next =>
        if isDigitByte next then
          .error ((⟨bytes, position.after 0x30⟩ : Cursor).faultAhead .invalidNumber)
        else .ok ([0], ⟨bytes, position.after 0x30⟩)
      | none => .ok ([0], ⟨bytes, position.after 0x30⟩) :=
  rfl

theorem readWhole_takes {digits : List Nat} (h : readWhole c = .ok (digits, c')) :
    ∃ taken, taken ≠ [] ∧ Takes Stops readWhole c taken digits c' := by
  obtain ⟨_ | ⟨byte, bytes⟩, position⟩ := c
  · cases h
  by_cases zero : byte = 0x30
  · subst zero
    rw [readWhole_zero] at h
    have noDigit : NoDigit bytes := by
      intro next hnext
      rw [hnext] at h
      by_contra digit
      dsimp only at h
      rw [if_pos (Bool.eq_true_of_not_eq_false digit)] at h
      cases h
    have lone : Reads readWhole (0x30 :: bytes) [0] bytes := readWhole_lone noDigit
    obtain ⟨_, read⟩ := lone position
    cases read.symm.trans h
    exact ⟨[0x30], List.cons_ne_nil _ _, rfl, fun rest' stops =>
      readWhole_lone (stops.noDigit noDigit)⟩
  · have digit : isDigitByte byte = true := by
      by_contra other
      rw [readWhole, Cursor.peek?_cons] at h
      dsimp only at h
      rw [if_neg (mt beq_iff_eq.1 zero), if_neg other] at h
      cases h
    rw [readWhole_nonzero zero digit] at h
    obtain ⟨taken, takes, noDigit⟩ := takeDigits_takes (Except.ok.inj h)
    cases taken with
    | nil => exact absurd (noDigit rfl byte rfl) (by rw [digit]; decide)
    | cons first taken =>
      obtain ⟨rfl, -⟩ := List.cons.inj takes.split
      refine ⟨byte :: taken, List.cons_ne_nil _ _, takes.split, fun rest' stops position => ?_⟩
      rw [List.cons_append, readWhole_nonzero zero digit]
      exact takes.again rest' stops position

theorem readFraction_point (bytes : List UInt8) (position : Position) :
    readFraction ⟨0x2E :: bytes, position⟩ =
      (let (digits, behind) := takeDigits ⟨bytes, position.after 0x2E⟩
      if !digits.isEmpty then .ok (some digits, behind)
      else if behind.peek?.isNone then .error (behind.fault .endInValue)
      else .error (behind.faultAhead .invalidNumber)) :=
  rfl

theorem readFraction_takes {fraction : Option (List Nat)}
    (h : readFraction c = .ok (fraction, c')) :
    ∃ taken, Takes Stops readFraction c taken fraction c' := by
  obtain ⟨bytes, position⟩ := c
  by_cases point : bytes.head? = some 0x2E
  · obtain ⟨more, rfl⟩ := List.head?_eq_some_iff.1 point
    rw [readFraction_point] at h
    cases htaking : takeDigits ⟨more, position.after 0x2E⟩ with
    | mk digits behind =>
      rw [htaking] at h
      dsimp only at h
      split at h
      · next some =>
        cases h
        obtain ⟨taken, takes, -⟩ := takeDigits_takes htaking
        refine ⟨0x2E :: taken, congrArg (0x2E :: ·) takes.split, fun rest' stops position => ?_⟩
        obtain ⟨position', again⟩ := takes.again rest' stops (position.after 0x2E)
        refine ⟨position', ?_⟩
        rw [List.cons_append, readFraction_point, Except.ok.inj again]
        dsimp only
        rw [if_pos some]
      · split at h <;> cases h
  · have none := readFraction_none point position
    obtain ⟨_, read⟩ := none
    cases read.symm.trans h
    refine ⟨[], rfl, fun rest' stops => readFraction_none ?_⟩
    exact stops.head?_ne point fun stop again => (stop 0x2E again).2.1 rfl

/-! ### Exponents -/

theorem readExponentDigits_takes {value result : Nat} {overflow : Bool} {position : Position}
    (h : readExponentDigits value position bytes = (result, overflow, c')) :
    ∃ taken, bytes = taken ++ c'.rest ∧ (taken = [] → NoDigit bytes) ∧
      ∀ rest', (overflow = false → Stops c'.rest rest') → ∀ position, ∃ position',
        readExponentDigits value position (taken ++ rest') =
          (result, overflow, ⟨rest', position'⟩) := by
  induction bytes generalizing value position with
  | nil =>
    cases h
    refine ⟨[], rfl, fun _ => by rintro _ ⟨⟩, fun rest' stops position => ?_⟩
    exact ⟨position, readExponentDigits_end ((stops rfl).noDigit (by rintro _ ⟨⟩)) position⟩
  | cons byte bytes ih =>
    rw [readExponentDigits] at h
    split at h
    · next digit =>
      dsimp only at h
      split at h
      · next tooLarge =>
        cases h
        refine ⟨[byte], rfl, fun empty => absurd empty (List.cons_ne_nil _ _),
          fun rest' _ position => ⟨position.after byte, ?_⟩⟩
        rw [List.singleton_append, readExponentDigits, if_pos digit]
        exact if_pos tooLarge
      · next small =>
        obtain ⟨taken, rfl, -, again⟩ := ih h
        refine ⟨byte :: taken, rfl, fun empty => absurd empty (List.cons_ne_nil _ _),
          fun rest' stops position => ?_⟩
        obtain ⟨position', read⟩ := again rest' stops (position.after byte)
        refine ⟨position', ?_⟩
        rw [List.cons_append, readExponentDigits, if_pos digit]
        exact (if_neg small).trans read
    · next other =>
      cases h
      have noDigit : NoDigit (byte :: bytes) := by
        rintro _ ⟨⟩
        exact Bool.eq_false_iff.2 other
      refine ⟨[], rfl, fun _ => noDigit, fun rest' stops position => ?_⟩
      exact ⟨position, readExponentDigits_end ((stops rfl).noDigit noDigit) position⟩

/-- What the reader of an exponent does behind the sign. -/
def readMagnitude (isZero negative : Bool) (c : Cursor) : Except Fault (Option Int × Cursor) :=
  match c.peek? with
  | none => .error (c.fault .endInValue)
  | some byte =>
    if isDigitByte byte then
      let (value, overflow, behind) := readExponentDigits 0 c.position c.rest
      if overflow then
        if !isZero && !negative then .error (behind.fault .numberOutOfRange)
        else .ok (some (-(value : Int)), (takeDigits behind).2)
      else .ok (some (if negative then -(value : Int) else value), behind)
    else .error (c.faultAhead .invalidNumber)

theorem readMagnitude_digit {byte : UInt8} (digit : isDigitByte byte = true)
    (isZero negative : Bool) (bytes : List UInt8) (position : Position) :
    readMagnitude isZero negative ⟨byte :: bytes, position⟩ =
      (let (value, overflow, behind) := readExponentDigits 0 position (byte :: bytes)
      if overflow then
        if !isZero && !negative then .error (behind.fault .numberOutOfRange)
        else .ok (some (-(value : Int)), (takeDigits behind).2)
      else .ok (some (if negative then -(value : Int) else value), behind)) := by
  rw [readMagnitude, Cursor.peek?_cons]
  dsimp only
  rw [if_pos digit]

theorem readMagnitude_takes {isZero negative : Bool} {exponent : Option Int}
    (h : readMagnitude isZero negative c = .ok (exponent, c')) :
    ∃ taken, taken ≠ [] ∧ Takes Stops (readMagnitude isZero negative) c taken exponent c' := by
  obtain ⟨_ | ⟨byte, bytes⟩, position⟩ := c
  · cases h
  have digit : isDigitByte byte = true := by
    by_contra other
    rw [readMagnitude, Cursor.peek?_cons] at h
    dsimp only at h
    rw [if_neg other] at h
    cases h
  rw [readMagnitude_digit digit] at h
  rcases hread : readExponentDigits 0 position (byte :: bytes) with ⟨value, overflow, behind⟩
  rw [hread] at h
  obtain ⟨_ | ⟨first, taken⟩, split, noDigit, again⟩ := readExponentDigits_takes hread
  · exact absurd (noDigit rfl byte rfl) (by rw [digit]; decide)
  obtain ⟨rfl, -⟩ := List.cons.inj split
  cases overflow with
  | false =>
    cases h
    refine ⟨byte :: taken, List.cons_ne_nil _ _, split, fun rest' stops position => ?_⟩
    obtain ⟨position', read⟩ := again rest' (fun _ => stops) position
    rw [List.cons_append] at read ⊢
    rw [readMagnitude_digit digit, read]
    exact ⟨position', rfl⟩
  | true =>
    dsimp only at h
    rw [if_pos rfl] at h
    split at h
    · cases h
    · next allowed =>
      cases h
      obtain ⟨more, takes, -⟩ := takeDigits_takes (Prod.eta (takeDigits behind)).symm
      refine ⟨byte :: taken ++ more, List.cons_ne_nil _ _, ?_, fun rest' stops position => ?_⟩
      · rw [List.append_assoc, ← takes.split]
        exact split
      · obtain ⟨position₁, read⟩ := again (more ++ rest') nofun position
        obtain ⟨position₂, taking⟩ := takes.again rest' stops position₁
        refine ⟨position₂, ?_⟩
        rw [List.append_assoc]
        rw [List.cons_append] at read ⊢
        rw [readMagnitude_digit digit, read]
        dsimp only
        rw [if_pos rfl, if_neg allowed, Except.ok.inj taking]

/-- Behind its letter an exponent perhaps has a sign, and then a magnitude. -/
theorem exists_sign {letter : UInt8} (h : letter = 0x65 ∨ letter = 0x45) (isZero : Bool)
    (bytes : List UInt8) : ∃ sign negative magnitude, bytes = sign ++ magnitude ∧
      ∀ magnitude', SameHead magnitude magnitude' → ∀ position, ∃ position',
        readExponent isZero ⟨letter :: (sign ++ magnitude'), position⟩ =
          readMagnitude isZero negative ⟨magnitude', position'⟩ := by
  by_cases minus : bytes.head? = some 0x2D
  · obtain ⟨more, rfl⟩ := List.head?_eq_some_iff.1 minus
    refine ⟨[0x2D], true, more, rfl, fun magnitude' _ position =>
      ⟨(position.after letter).after 0x2D, ?_⟩⟩
    rcases h with rfl | rfl <;> rfl
  by_cases plus : bytes.head? = some 0x2B
  · obtain ⟨more, rfl⟩ := List.head?_eq_some_iff.1 plus
    refine ⟨[0x2B], false, more, rfl, fun magnitude' _ position =>
      ⟨(position.after letter).after 0x2B, ?_⟩⟩
    rcases h with rfl | rfl <;> rfl
  · refine ⟨[], false, bytes, rfl, fun magnitude' same position => ⟨position.after letter, ?_⟩⟩
    rw [← same] at minus plus
    have unsigned : ((⟨magnitude', position.after letter⟩ : Cursor).peek? == some 0x2D) = false :=
      beq_eq_false_iff_ne.2 minus
    have unsigned' : ((⟨magnitude', position.after letter⟩ : Cursor).peek? == some 0x2B) = false :=
      beq_eq_false_iff_ne.2 plus
    rw [List.nil_append, readExponent, Cursor.peek?_cons, Cursor.advance_cons]
    dsimp only
    rw [unsigned, unsigned', if_pos (by rcases h with rfl | rfl <;> rfl), if_neg (by decide)]
    rfl

theorem readExponent_takes {isZero : Bool} {exponent : Option Int}
    (h : readExponent isZero c = .ok (exponent, c')) :
    ∃ taken, Takes Stops (readExponent isZero) c taken exponent c' := by
  obtain ⟨bytes, position⟩ := c
  by_cases letter : bytes.head? = some 0x65 ∨ bytes.head? = some 0x45
  · obtain ⟨first, bytes, isLetter, rfl⟩ :
        ∃ first more, (first = 0x65 ∨ first = 0x45) ∧ bytes = first :: more := by
      rcases letter with letter | letter
      · obtain ⟨more, rfl⟩ := List.head?_eq_some_iff.1 letter
        exact ⟨_, more, .inl rfl, rfl⟩
      · obtain ⟨more, rfl⟩ := List.head?_eq_some_iff.1 letter
        exact ⟨_, more, .inr rfl, rfl⟩
    obtain ⟨sign, negative, magnitude, rfl, signed⟩ := exists_sign isLetter isZero bytes
    obtain ⟨_, read⟩ := signed magnitude rfl position
    obtain ⟨taken, nonempty, takes⟩ := readMagnitude_takes (read.symm.trans h)
    have split : magnitude = taken ++ c'.rest := takes.split
    refine ⟨first :: (sign ++ taken), ?_, fun rest' stops position => ?_⟩
    · rw [split, List.cons_append, List.append_assoc]
    · have same : SameHead magnitude (taken ++ rest') := by
        rw [split]
        exact sameHead_append _ _ nonempty
      obtain ⟨position₁, read⟩ := signed (taken ++ rest') same position
      rw [List.cons_append, List.append_assoc, read]
      exact takes.again rest' stops position₁
  · obtain ⟨small, capital⟩ := not_or.1 letter
    have absent : Reads (readExponent isZero) bytes none bytes := readExponent_none small capital
    obtain ⟨_, read⟩ := absent position
    cases read.symm.trans h
    refine ⟨[], rfl, fun rest' stops => readExponent_none ?_ ?_⟩
    · exact stops.head?_ne small fun stop again => (stop 0x65 again).2.2.1 rfl
    · exact stops.head?_ne capital fun stop again => (stop 0x45 again).2.2.2 rfl

/-! ### Numbers -/

variable [DoubleReader]

/-- The number that its parts make, if it is not beyond the doubles. -/
def number? (negative : Bool) (whole : List Nat) (fraction : Option (List Nat))
    (exponent : Option Int) : Option Json :=
  let coefficient := Decimal.digitsValue (whole ++ fraction.getD [])
  match if fraction.isNone && exponent.isNone then wholeNumber? negative coefficient else none with
  | some n => some (.int n)
  | none =>
    (DoubleReader.double? ⟨negative, whole, fraction, exponent⟩).map .float

theorem readNumber_parts (negative : Bool) {whole : List Nat} {fraction : Option (List Nat)}
    {exponent : Option Int} {c₁ c₂ c₃ : Cursor} (hwhole : readWhole c = .ok (whole, c₁))
    (hfraction : readFraction c₁ = .ok (fraction, c₂))
    (hexponent : readExponent (Decimal.digitsValue (whole ++ fraction.getD []) == 0) c₂ =
      .ok (exponent, c₃)) :
    readNumber negative c = (number? negative whole fraction exponent).elim
      (.error (c₃.fault .numberOutOfRange)) fun v => .ok (v, c₃) := by
  unfold readNumber number?
  rw [hwhole]
  dsimp only [bind, Except.bind]
  rw [hfraction]
  dsimp only
  rw [hexponent]
  dsimp only
  generalize (if fraction.isNone && exponent.isNone then
    wholeNumber? negative (Decimal.digitsValue (whole ++ fraction.getD [])) else none) = kept
  cases kept with
  | some n => rfl
  | none =>
    dsimp only
    cases DoubleReader.double? ⟨negative, whole, fraction, exponent⟩ with
    | none => rfl
    | some x => rfl

theorem exists_parts {negative : Bool} {v : Json} (h : readNumber negative c = .ok (v, c')) :
    ∃ whole c₁ fraction c₂ exponent,
      readWhole c = .ok (whole, c₁) ∧ readFraction c₁ = .ok (fraction, c₂) ∧
        readExponent (Decimal.digitsValue (whole ++ fraction.getD []) == 0) c₂ =
          .ok (exponent, c') ∧
        number? negative whole fraction exponent = some v := by
  have steps := h
  unfold readNumber at steps
  obtain ⟨⟨whole, c₁⟩, hwhole, steps⟩ := exists_of_bind steps
  obtain ⟨⟨fraction, c₂⟩, hfraction, steps⟩ := exists_of_bind steps
  obtain ⟨⟨exponent, c₃⟩, hexponent, -⟩ := exists_of_bind steps
  rw [readNumber_parts negative hwhole hfraction hexponent] at h
  cases hnumber : number? negative whole fraction exponent with
  | none =>
    rw [hnumber] at h
    cases h
  | some number =>
    rw [hnumber] at h
    cases h
    exact ⟨whole, c₁, fraction, c₂, exponent, hwhole, hfraction, hexponent, hnumber⟩

theorem readNumber_takes {negative : Bool} {v : Json} (h : readNumber negative c = .ok (v, c')) :
    ∃ taken, taken ≠ [] ∧ Takes Stops (readNumber negative) c taken v c' := by
  obtain ⟨whole, c₁, fraction, c₂, exponent, hwhole, hfraction, hexponent, number⟩ :=
    exists_parts h
  obtain ⟨taken₁, nonempty, takes₁⟩ := readWhole_takes hwhole
  obtain ⟨taken₂, takes₂⟩ := readFraction_takes hfraction
  obtain ⟨taken₃, takes₃⟩ := readExponent_takes hexponent
  refine ⟨taken₁ ++ (taken₂ ++ taken₃), List.append_ne_nil_of_left_ne_nil nonempty _, ?_, ?_⟩
  · rw [takes₁.split, takes₂.split, takes₃.split, List.append_assoc, List.append_assoc]
  · intro rest' stops position
    have stops₂ : Stops c₂.rest (taken₃ ++ rest') := by
      rw [takes₃.split]
      exact stops_append taken₃ stops
    have stops₁ : Stops c₁.rest (taken₂ ++ (taken₃ ++ rest')) := by
      rw [takes₂.split]
      exact stops_append taken₂ stops₂
    obtain ⟨position₁, read₁⟩ := takes₁.again _ stops₁ position
    obtain ⟨position₂, read₂⟩ := takes₂.again _ stops₂ position₁
    obtain ⟨position₃, read₃⟩ := takes₃.again _ stops position₂
    refine ⟨position₃, ?_⟩
    rw [List.append_assoc, List.append_assoc, readNumber_parts negative read₁ read₂ read₃, number]
    rfl

end LazyBinding.Json
