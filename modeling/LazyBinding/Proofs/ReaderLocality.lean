import LazyBinding.Proofs.TokenLocality

/-!
# Documents are read locally

What stands behind a document does not matter to its reader, unless it goes on with a number. The
loops over items and members stop at their bracket, and more steps than they take change nothing.
-/
namespace LazyBinding.Json

variable {α : Type} {a : α} {c c' : Cursor} {rest rest' bytes taken : List UInt8} {isFirst : Bool}
  {position : Position} {depth steps steps' index : Nat} {v : Json}
  {reader item value : Cursor → Except Fault (Json × Cursor)}

/-- Anything may replace what follows. -/
def Anything (_ _ : List UInt8) : Prop := True

/-- A reader of values takes at least one byte for each, and then at most looks whether a number
ends. -/
def IsLocal (reader : Cursor → Except Fault (Json × Cursor)) : Prop :=
  ∀ ⦃c v c'⦄, reader c = .ok (v, c') → ∃ taken, taken ≠ [] ∧ Takes Stops reader c taken v c'

/-! ### Marks -/

theorem takes_byte {byte : UInt8} (h : c.rest.head? = some byte) :
    Takes Anything (fun c => .ok ((), c.advance)) c [byte] () c.advance := by
  obtain ⟨bytes, position⟩ := c
  obtain ⟨more, rfl⟩ := List.head?_eq_some_iff.1 h
  exact ⟨rfl, fun rest' _ position => ⟨_, rfl⟩⟩

theorem nextItem_skipBlanks (isFirst : Bool) (c : Cursor) :
    nextItem isFirst c = nextItem isFirst c.skipBlanks := by
  rw [nextItem, nextItem, skipBlanks_skipBlanks]

theorem nextItem_takes {found : Bool} (h : nextItem isFirst c = .ok (found, c')) :
    ∃ taken, Takes SameHead (nextItem isFirst) c taken found c' ∧
      (found = false → c'.rest.head? = some 0x5D) := by
  obtain ⟨_, _, _, noBlank⟩ := exists_blanks c
  rw [nextItem_skipBlanks] at h
  -- Blanks in front are taken in any case, so the cases are those of the first other byte.
  suffices takes : ∃ taken, Takes SameHead (nextItem isFirst) c.skipBlanks taken found c' ∧
      (found = false → c'.rest.head? = some 0x5D) by
    obtain ⟨taken, takes, ended⟩ := takes
    obtain ⟨blanks, takes⟩ :=
      takes.blanks (nextItem_skipBlanks isFirst) fun _ same => same.append taken
    exact ⟨_, takes, ended⟩
  generalize c.skipBlanks = d at h noBlank
  obtain ⟨_ | ⟨byte, bytes⟩, position⟩ := d
  · cases h
  rw [nextItem, skipBlanks_noBlank noBlank] at h
  dsimp only at h
  rw [Cursor.peek?_cons, Cursor.advance_cons] at h
  dsimp only at h
  by_cases ended : byte = 0x5D
  · subst ended
    rw [if_pos (by decide)] at h
    cases h
    refine ⟨[], ⟨rfl, fun rest' same position => ?_⟩, fun _ => rfl⟩
    obtain ⟨more, rfl⟩ := List.head?_eq_some_iff.1 same
    exact nextItem_end isFirst areBlanks_nil more position
  rw [if_neg (mt beq_iff_eq.1 ended)] at h
  cases isFirst with
  | true =>
    cases h
    refine ⟨[], ⟨rfl, fun rest' same position => ?_⟩, fun missing => absurd missing (by decide)⟩
    obtain ⟨more, rfl⟩ := List.head?_eq_some_iff.1 same
    exact nextItem_found true areBlanks_nil ⟨byte, [], rfl, noBlank byte rfl, ended⟩ more position
  | false =>
    rw [if_neg (by decide)] at h
    by_cases comma : byte = 0x2C
    · subst comma
      rw [if_pos (by decide)] at h
      obtain ⟨blanks, areBlanks, split, noBlank⟩ := exists_blanks ⟨bytes, position.after 0x2C⟩
      generalize Cursor.skipBlanks _ = d at h split noBlank
      obtain ⟨_ | ⟨byte, more⟩, position⟩ := d
      · cases h
      rw [Cursor.peek?_cons] at h
      dsimp only at h
      by_cases ended : byte = 0x5D
      · rw [if_pos (beq_iff_eq.2 ended)] at h
        cases h
      · rw [if_neg (mt beq_iff_eq.1 ended)] at h
        cases h
        refine ⟨0x2C :: blanks, ⟨congrArg (0x2C :: ·) split, fun rest' same position => ?_⟩,
          fun missing => absurd missing (by decide)⟩
        obtain ⟨more, rfl⟩ := List.head?_eq_some_iff.1 same
        exact nextItem_found false areBlanks ⟨byte, [], rfl, noBlank byte rfl, ended⟩ more position
    · rw [if_neg (mt beq_iff_eq.1 comma)] at h
      cases h

theorem nextMember_skipBlanks (isFirst : Bool) (c : Cursor) :
    nextMember isFirst c = nextMember isFirst c.skipBlanks := by
  rw [nextMember, nextMember, skipBlanks_skipBlanks]

theorem nextMember_end (isFirst : Bool) (position : Position) :
    nextMember isFirst ⟨0x7D :: rest, position⟩ = .ok (false, ⟨0x7D :: rest, position⟩) := by
  have noBlank : NoBlank (0x7D :: rest) := noBlank_cons (by decide) _
  rw [nextMember, skipBlanks_noBlank noBlank]
  rfl

theorem nextMember_takes {found : Bool} (h : nextMember isFirst c = .ok (found, c')) :
    ∃ taken, Takes SameHead (nextMember isFirst) c taken found c' ∧
      c'.rest.head? = some (if found then 0x22 else 0x7D) := by
  obtain ⟨_, _, _, noBlank⟩ := exists_blanks c
  rw [nextMember_skipBlanks] at h
  suffices takes : ∃ taken, Takes SameHead (nextMember isFirst) c.skipBlanks taken found c' ∧
      c'.rest.head? = some (if found then 0x22 else 0x7D) by
    obtain ⟨taken, takes, ended⟩ := takes
    obtain ⟨blanks, takes⟩ :=
      takes.blanks (nextMember_skipBlanks isFirst) fun _ same => same.append taken
    exact ⟨_, takes, ended⟩
  generalize c.skipBlanks = d at h noBlank
  obtain ⟨_ | ⟨byte, bytes⟩, position⟩ := d
  · cases h
  rw [nextMember, skipBlanks_noBlank noBlank] at h
  dsimp only at h
  rw [Cursor.peek?_cons, Cursor.advance_cons] at h
  dsimp only at h
  by_cases ended : byte = 0x7D
  · subst ended
    rw [if_pos (by decide)] at h
    cases h
    refine ⟨[], ⟨rfl, fun rest' same position => ?_⟩, rfl⟩
    obtain ⟨more, rfl⟩ := List.head?_eq_some_iff.1 same
    exact ⟨position, nextMember_end isFirst position⟩
  rw [if_neg (mt beq_iff_eq.1 ended)] at h
  cases isFirst with
  | true =>
    rw [if_pos rfl] at h
    by_cases quote : byte = 0x22
    · subst quote
      rw [if_pos (by decide)] at h
      cases h
      refine ⟨[], ⟨rfl, fun rest' same position => ?_⟩, rfl⟩
      obtain ⟨more, rfl⟩ := List.head?_eq_some_iff.1 same
      exact nextMember_found true areBlanks_nil position
    · rw [if_neg (mt beq_iff_eq.1 quote)] at h
      cases h
  | false =>
    rw [if_neg (by decide)] at h
    by_cases comma : byte = 0x2C
    · subst comma
      rw [if_pos (by decide)] at h
      obtain ⟨blanks, areBlanks, split, -⟩ := exists_blanks ⟨bytes, position.after 0x2C⟩
      generalize Cursor.skipBlanks _ = d at h split
      obtain ⟨_ | ⟨byte, more⟩, position⟩ := d
      · cases h
      rw [Cursor.peek?_cons] at h
      dsimp only at h
      by_cases quote : byte = 0x22
      · subst quote
        rw [if_pos (by decide)] at h
        cases h
        refine ⟨0x2C :: blanks, ⟨congrArg (0x2C :: ·) split, fun rest' same position => ?_⟩, rfl⟩
        obtain ⟨more, rfl⟩ := List.head?_eq_some_iff.1 same
        exact nextMember_found false areBlanks position
      · rw [if_neg (mt beq_iff_eq.1 quote)] at h
        split at h <;> cases h
    · rw [if_neg (mt beq_iff_eq.1 comma)] at h
      cases h

/-! ### Loops -/

section Loops

variable {Lead : Type} {k : Lead} {elements : List α} {closing : UInt8}
  {next : (index : Nat) → Cursor → Except Fault (Option Lead × Cursor)}
  {element : Lead → Cursor → Except Fault (α × Cursor)}
  {loop : (steps index : Nat) → Cursor → Except Fault (List α × Cursor)}

/-- A loop over elements, each behind a lead, up to a byte that closes them. -/
structure IsLoop (next : (index : Nat) → Cursor → Except Fault (Option Lead × Cursor))
    (element : Lead → Cursor → Except Fault (α × Cursor))
    (loop : (steps index : Nat) → Cursor → Except Fault (List α × Cursor)) : Prop where
  spent (index : Nat) (c : Cursor) : ∃ f, loop 0 index c = .error f
  step {steps index : Nat} {c c' : Cursor} {elements : List α} :
    loop (steps + 1) index c = .ok (elements, c') ↔
      (∃ d, next index c = .ok (none, d) ∧ elements = [] ∧ c' = d.advance) ∨
      ∃ k d a e others, next index c = .ok (some k, d) ∧ element k d = .ok (a, e) ∧
        a :: others = elements ∧ loop steps (index + 1) e = .ok (others, c')

/-- A loop takes one step for each element and one for the end; others do not change it. -/
theorem IsLoop.enough (isLoop : IsLoop next element loop)
    (h : loop steps index c = .ok (elements, c')) (enough : elements.length < steps') :
    loop steps' index c = .ok (elements, c') := by
  induction steps generalizing steps' index c elements with
  | zero =>
    obtain ⟨f, failed⟩ := isLoop.spent index c
    cases failed.symm.trans h
  | succ steps ih =>
    obtain ⟨steps', rfl⟩ : ∃ n, steps' = n + 1 := ⟨steps' - 1, by omega⟩
    rcases isLoop.step.1 h with ended | ⟨k, d, a, e, others, led, read, rfl, more⟩
    · exact isLoop.step.2 (.inl ended)
    · have more := ih more (Nat.lt_of_succ_lt_succ enough)
      exact isLoop.step.2 (.inr ⟨k, d, a, e, others, led, read, rfl, more⟩)

/-- Behind what a loop takes anything may stand, since it has seen the byte that closes it. -/
theorem IsLoop.takes (isLoop : IsLoop next element loop)
    (leads : ∀ {index c lead c'}, next index c = .ok (lead, c') →
      ∃ taken, Takes SameHead (next index) c taken lead c' ∧
        (lead = none → c'.rest.head? = some closing))
    (isLocal : ∀ {k c a c'}, element k c = .ok (a, c') →
      ∃ taken, taken ≠ [] ∧ Takes Stops (element k) c taken a c')
    (h : loop steps index c = .ok (elements, c')) :
    ∃ taken, elements.length < taken.length ∧
      Takes Anything (loop steps index) c taken elements c' := by
  induction steps generalizing index c elements with
  | zero =>
    obtain ⟨f, failed⟩ := isLoop.spent index c
    cases failed.symm.trans h
  | succ steps ih =>
    rcases isLoop.step.1 h with ⟨d, ended, rfl, rfl⟩ | ⟨k, d, a, e, others, led, read, rfl, more⟩
    · obtain ⟨lead, takes, closes⟩ := leads ended
      refine ⟨lead ++ [closing], by simp, takes.andThen (takes_byte (closes rfl)) ?_ ?_⟩
      · exact fun rest' _ => sameHead_append _ _ (List.cons_ne_nil _ _)
      · intro d d₁ d₂ ended passed
        cases passed
        exact isLoop.step.2 (.inl ⟨d₁, ended, rfl, rfl⟩)
    · obtain ⟨lead, takes₁, -⟩ := leads led
      obtain ⟨one, nonempty, takes₂⟩ := isLocal read
      obtain ⟨later, longer, takes₃⟩ := ih more
      -- What stands behind an element is never empty: the closing byte at least.
      have filled : later ≠ [] := List.ne_nil_of_length_pos (Nat.zero_lt_of_lt longer)
      refine ⟨lead ++ (one ++ later), ?_, ?_, fun rest' _ position => ?_⟩
      · have := List.length_pos_iff.2 nonempty
        simp only [List.length_cons, List.length_append]
        omega
      · rw [takes₁.split, takes₂.split, takes₃.split, List.append_assoc, List.append_assoc]
      · have same : SameHead d.rest (one ++ (later ++ rest')) := by
          rw [takes₂.split]
          exact sameHead_append _ _ nonempty
        have stops : Stops e.rest (later ++ rest') := by
          rw [takes₃.split]
          exact .inl (sameHead_append _ _ filled)
        obtain ⟨position₁, led⟩ := takes₁.again _ same position
        obtain ⟨position₂, read⟩ := takes₂.again _ stops position₁
        obtain ⟨position₃, more⟩ := takes₃.again rest' trivial position₂
        refine ⟨position₃, ?_⟩
        rw [List.append_assoc, List.append_assoc]
        exact isLoop.step.2 (.inr ⟨k, _, a, _, others, led, read, rfl, more⟩)

end Loops

/-! ### Arrays -/

/-- What stands in front of an item: perhaps another one follows. -/
def itemLead (index : Nat) (c : Cursor) : Except Fault (Option Unit × Cursor) :=
  (nextItem (index == 0) c).map fun (found, c) => (if found then some () else none, c)

theorem itemLead_takes {lead : Option Unit} (h : itemLead index c = .ok (lead, c')) :
    ∃ taken, Takes SameHead (itemLead index) c taken lead c' ∧
      (lead = none → c'.rest.head? = some 0x5D) := by
  obtain ⟨found, next, rfl⟩ := exists_of_map (fun found : Bool => if found then some () else none) h
  obtain ⟨taken, takes, ended⟩ := nextItem_takes next
  refine ⟨taken, takes.map fun found => if found then some () else none, fun none => ended ?_⟩
  cases found with
  | true => cases none
  | false => rfl

theorem isLoop_readItems (item : Cursor → Except Fault (Json × Cursor)) :
    IsLoop itemLead (fun _ => item) (readItems item) where
  spent index c := ⟨_, rfl⟩
  step {steps index c c' items} := by
    rw [readItems, itemLead]
    cases hnext : nextItem (index == 0) c with
    | error f => simp [Except.map]
    | ok next =>
      obtain ⟨_ | _, d⟩ := next
      · simp [Except.map, eq_comm]
      · cases hitem : item d with
        | error f => simp [Except.map, hitem]
        | ok read =>
          obtain ⟨v, e⟩ := read
          cases hothers : readItems item steps (index + 1) e with
          | error f => simp [Except.map, hitem, hothers]
          | ok read =>
            obtain ⟨others, behind⟩ := read
            simp [Except.map, hitem, hothers]

/-! ### Objects -/

theorem readKey?_takes {key? : Option String} (h : readKey? isFirst c = .ok (key?, c')) :
    ∃ taken, Takes SameHead (readKey? isFirst) c taken key? c' ∧
      (key? = none → c'.rest.head? = some 0x7D) := by
  rw [readKey?] at h
  split at h
  · cases h
  · next d next =>
    cases h
    obtain ⟨taken, takes, ended⟩ := nextMember_takes next
    refine ⟨taken, ⟨takes.split, fun rest' same position => ?_⟩, fun _ => ended⟩
    obtain ⟨position', again⟩ := takes.again rest' same position
    refine ⟨position', ?_⟩
    rw [readKey?, again]
  · next d next =>
    split at h
    · cases h
    · next key e read =>
      cases h
      obtain ⟨lead, takes, quote⟩ := nextMember_takes next
      obtain ⟨more, split⟩ := List.head?_eq_some_iff.1 quote
      obtain ⟨inside, takes'⟩ := readString_takes read
      have quoted := takes'.behind split
      refine ⟨lead ++ 0x22 :: inside, takes.andThen (quoted.mono fun _ _ => trivial) ?_ ?_,
        fun missing => absurd missing (Option.some_ne_none key)⟩
      · exact fun rest' _ => sameHead_append _ _ (List.cons_ne_nil _ _)
      · intro d d₁ d₂ found read
        rw [readKey?, found]
        dsimp only at read ⊢
        rw [read]

theorem readColon_takes (h : readColon c = .ok c') :
    ∃ taken, Takes Anything (fun c => (readColon c).map ((), ·)) c taken () c' := by
  obtain ⟨blanks, areBlanks, split, -⟩ := exists_blanks c
  rw [readColon] at h
  generalize c.skipBlanks = d at h split
  obtain ⟨_ | ⟨byte, bytes⟩, position⟩ := d
  · cases h
  rw [Cursor.peek?_cons] at h
  dsimp only at h
  by_cases colon : byte = 0x3A
  · subst colon
    rw [if_pos (by decide)] at h
    cases h
    refine ⟨blanks ++ [0x3A], ?_, fun rest' _ position => ?_⟩
    · rw [split, List.append_assoc]
      rfl
    · have noBlank : NoBlank (0x3A :: rest') := noBlank_cons (by decide) _
      obtain ⟨position', skipped⟩ := skipBlanks_blanks areBlanks noBlank position
      refine ⟨position'.after 0x3A, ?_⟩
      rw [List.append_assoc, List.singleton_append, readColon, skipped]
      rfl
  · rw [if_neg (mt beq_iff_eq.1 colon)] at h
    cases h

theorem readMember_isLocal (isLocal : IsLocal value) (key : String) :
    IsLocal (readMember value key) := by
  intro c v c' h
  rw [readMember] at h
  split at h
  · cases h
  · next d colon =>
    split at h
    · cases h
    · next v e read =>
      cases h
      obtain ⟨taken, takes⟩ := readColon_takes colon
      obtain ⟨taken', nonempty, takes'⟩ := isLocal read
      refine ⟨taken ++ taken', List.append_ne_nil_of_right_ne_nil _ nonempty,
        takes.andThen takes' (fun _ _ => trivial) ?_⟩
      intro d d₁ d₂ passed read
      cases hcolon : readColon d with
      | error f =>
        rw [hcolon] at passed
        cases passed
      | ok behind =>
        rw [hcolon] at passed
        cases passed
        rw [readMember, hcolon]
        dsimp only
        rw [read]

/-- Reads one member behind its key, with the key. -/
def readKeyed (value : Cursor → Except Fault (Json × Cursor)) (key : String) (c : Cursor) :
    Except Fault ((String × Json) × Cursor) :=
  (readMember value key c).map fun (v, c) => ((key, v), c)

theorem isLoop_readMembers (value : Cursor → Except Fault (Json × Cursor)) :
    IsLoop (fun index => readKey? (index == 0)) (readKeyed value)
      (fun steps index => readMembers value steps (index == 0)) where
  spent index c := ⟨_, rfl⟩
  step {steps index c c' members} := by
    rw [readMembers]
    cases hkey : readKey? (index == 0) c with
    | error f => simp
    | ok next =>
      obtain ⟨_ | key, d⟩ := next
      · simp [eq_comm]
      · cases hmember : readMember value key d with
        | error f => simp [readKeyed, Except.map, hmember]
        | ok read =>
          obtain ⟨v, e⟩ := read
          cases hothers : readMembers value steps false e with
          | error f => simp [readKeyed, Except.map, hmember, hothers]
          | ok read =>
            obtain ⟨others, behind⟩ := read
            simp [readKeyed, Except.map, hmember, hothers]

theorem readKeyed_takes (isLocal : IsLocal value) {key : String} {read : String × Json}
    (h : readKeyed value key c = .ok (read, c')) :
    ∃ taken, taken ≠ [] ∧ Takes Stops (readKeyed value key) c taken read c' := by
  obtain ⟨v, read, rfl⟩ := exists_of_map (key, ·) h
  obtain ⟨taken, nonempty, takes⟩ := readMember_isLocal isLocal key read
  exact ⟨taken, nonempty, takes.map (key, ·)⟩

/-! ### Values -/

theorem takes_word {letters : List UInt8} {byte : UInt8} {word : Json}
    (h : (readLetters (⟨byte :: bytes, position⟩ : Cursor).advance letters).map (word, ·) =
      .ok (v, c')) :
    ∃ taken, taken ≠ [] ∧ Takes Stops (fun c => (readLetters c.advance letters).map (word, ·))
      ⟨byte :: bytes, position⟩ taken v c' := by
  rw [Cursor.advance_cons] at h
  cases hletters : readLetters ⟨bytes, position.after byte⟩ letters with
  | error f =>
    rw [hletters] at h
    cases h
  | ok behind =>
    rw [hletters] at h
    cases h
    refine ⟨byte :: letters, List.cons_ne_nil _ _,
      congrArg (byte :: ·) (readLetters_split hletters), fun rest' _ position => ?_⟩
    obtain ⟨position', read⟩ := readLetters_letters letters rest' (position.after byte)
    refine ⟨position', ?_⟩
    rw [List.cons_append, Cursor.advance_cons, read]
    rfl

theorem takes_container {Lead : Type} {opening closing : UInt8}
    {next : (index : Nat) → Cursor → Except Fault (Option Lead × Cursor)}
    {element : Lead → Cursor → Except Fault (α × Cursor)}
    {loop : (steps index : Nat) → Cursor → Except Fault (List α × Cursor)} (f : List α → Json)
    (isLoop : IsLoop next element loop)
    (opens : ∀ inside position, reader ⟨opening :: inside, position⟩ =
      (loop (inside.length + 1) 0 ⟨inside, position.after opening⟩).map
        fun (elements, c) => (f elements, c))
    (leads : ∀ {index c lead c'}, next index c = .ok (lead, c') →
      ∃ taken, Takes SameHead (next index) c taken lead c' ∧
        (lead = none → c'.rest.head? = some closing))
    (isLocal : ∀ {k c a c'}, element k c = .ok (a, c') →
      ∃ taken, taken ≠ [] ∧ Takes Stops (element k) c taken a c')
    (h : reader ⟨opening :: bytes, position⟩ = .ok (v, c')) :
    ∃ taken, taken ≠ [] ∧ Takes Stops reader ⟨opening :: bytes, position⟩ taken v c' := by
  rw [opens] at h
  obtain ⟨elements, read, rfl⟩ := exists_of_map f h
  obtain ⟨taken, longer, takes⟩ := isLoop.takes leads isLocal read
  refine ⟨opening :: taken, List.cons_ne_nil _ _, congrArg (opening :: ·) takes.split, ?_⟩
  intro rest' _ position
  obtain ⟨position', again⟩ := takes.again rest' trivial (position.after opening)
  -- The steps go by all that remains, which other bytes behind the container change.
  have enough : elements.length < (taken ++ rest').length + 1 := by
    rw [List.length_append]
    omega
  refine ⟨position', ?_⟩
  rw [List.cons_append, opens, isLoop.enough again enough]
  rfl

variable [DoubleReader]

theorem readScalar_takes {byte : UInt8}
    (h : readScalar byte ⟨byte :: bytes, position⟩ = .ok (v, c')) :
    ∃ taken, taken ≠ [] ∧ Takes Stops (readScalar byte) ⟨byte :: bytes, position⟩ taken v c' := by
  by_cases digit : isDigitByte byte = true
  · rw [readScalar_digit digit] at h
    obtain ⟨taken, nonempty, takes⟩ := readNumber_takes h
    refine ⟨taken, nonempty, takes.split, fun rest' stops position => ?_⟩
    rw [readScalar_digit digit]
    exact takes.again rest' stops position
  · unfold readScalar at h
    split at h
    · next null =>
      rw [beq_iff_eq.1 null] at h ⊢
      exact takes_word h
    split at h
    · next true =>
      rw [beq_iff_eq.1 true] at h ⊢
      exact takes_word h
    split at h
    · next false =>
      rw [beq_iff_eq.1 false] at h ⊢
      exact takes_word h
    split at h
    · next minus =>
      rw [beq_iff_eq.1 minus] at h ⊢
      obtain ⟨taken, nonempty, takes⟩ := readNumber_takes h
      exact ⟨0x2D :: taken, List.cons_ne_nil _ _, takes.behind rfl⟩
    split at h
    · next quote =>
      rw [beq_iff_eq.1 quote] at h ⊢
      obtain ⟨s, read, rfl⟩ := exists_of_map Json.str h
      obtain ⟨taken, takes⟩ := readString_takes read
      exact ⟨0x22 :: taken, List.cons_ne_nil _ _,
        ((takes.behind rfl).map Json.str).mono fun _ _ => trivial⟩
    · cases h

theorem readValue_found {byte : UInt8} (inner : ∀ d, depth = d + 1 → IsLocal (readValue d))
    (noBlank : Cursor.isBlankByte byte = false)
    (h : readValue depth ⟨byte :: bytes, position⟩ = .ok (v, c')) :
    ∃ taken, taken ≠ [] ∧ Takes Stops (readValue depth) ⟨byte :: bytes, position⟩ taken v c' := by
  by_cases bracket : byte = 0x5B ∨ byte = 0x7B
  · cases depth with
    | zero =>
      rw [readValue, skipBlanks_noBlank (noBlank_cons noBlank _)] at h
      rcases bracket with rfl | rfl <;> cases h
    | succ depth =>
      have isLocal := inner depth rfl
      rcases bracket with rfl | rfl
      · exact takes_container Json.arr (isLoop_readItems _) readValue_array itemLead_takes
          (fun read => isLocal read) h
      · exact takes_container (fun members => Json.obj (Dict.ofList members))
          (isLoop_readMembers _) readValue_object readKey?_takes (readKeyed_takes isLocal) h
  · obtain ⟨noArray, noObject⟩ := not_or.1 bracket
    rw [readValue_scalar noBlank noArray noObject] at h
    obtain ⟨taken, nonempty, takes⟩ := readScalar_takes h
    refine ⟨taken, nonempty, takes.split, fun rest' stops position => ?_⟩
    obtain ⟨position', again⟩ := takes.again rest' stops position
    cases taken with
    | nil => exact absurd rfl nonempty
    | cons first taken =>
      obtain ⟨rfl, -⟩ := List.cons.inj takes.split
      refine ⟨position', ?_⟩
      rw [List.cons_append, readValue_scalar noBlank noArray noObject]
      exact again

theorem readValue_isLocal_of_inner (inner : ∀ d, depth = d + 1 → IsLocal (readValue d)) :
    IsLocal (readValue depth) := by
  intro c v c' h
  have skips := fun c => readValue_skipBlanks depth c (skipBlanks_skipBlanks c)
  obtain ⟨_, _, _, noBlank⟩ := exists_blanks c
  rw [skips] at h
  obtain ⟨taken, nonempty, takes⟩ : ∃ taken, taken ≠ [] ∧
      Takes Stops (readValue depth) c.skipBlanks taken v c' := by
    generalize c.skipBlanks = d at h noBlank
    obtain ⟨_ | ⟨byte, bytes⟩, position⟩ := d
    · rw [readValue] at h
      cases h
    · exact readValue_found inner (noBlank byte rfl) h
  obtain ⟨blanks, takes⟩ := takes.blanks skips fun rest' _ => sameHead_append _ _ nonempty
  exact ⟨_, List.append_ne_nil_of_right_ne_nil _ nonempty, takes⟩

/-- The reader of documents is local, however deep they may be. -/
theorem readValue_isLocal (depth : Nat) : IsLocal (readValue depth) := by
  induction depth with
  | zero => exact readValue_isLocal_of_inner nofun
  | succ depth ih =>
    refine readValue_isLocal_of_inner ?_
    rintro _ ⟨⟩
    exact ih

end LazyBinding.Json
