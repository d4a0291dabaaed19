/-!
# Blank characters

The characters of the Unicode property `White_Space` and the trimming that goes by it.
-/
namespace LazyBinding.Text

/-- One of the 25 characters with the property `White_Space`. -/
def isBlank (c : Char) : Bool :=
  let code := c.toNat
  (0x09 ≤ code && code ≤ 0x0D) || code == 0x20 || code == 0x85 || code == 0xA0 ||
    code == 0x1680 || (0x2000 ≤ code && code ≤ 0x200A) || code == 0x2028 || code == 0x2029 ||
    code == 0x202F || code == 0x205F || code == 0x3000

def trimStart (cs : List Char) : List Char := cs.dropWhile isBlank

def trim (cs : List Char) : List Char :=
  ((trimStart cs).reverse.dropWhile isBlank).reverse

/-- `core` is what is left of a text without the blanks around it. -/
structure Trims (cs core : List Char) : Prop where
  around : ∃ before after, cs = before ++ core ++ after ∧
    (∀ ch ∈ before, isBlank ch = true) ∧ ∀ ch ∈ after, isBlank ch = true
  first : ∀ ch ∈ core.head?, isBlank ch = false
  last : ∀ ch ∈ core.getLast?, isBlank ch = false

private theorem dropWhile_isBlank {blanks cs : List Char} (h : ∀ ch ∈ blanks, isBlank ch = true)
    (stop : ∀ ch ∈ cs.head?, isBlank ch = false) : (blanks ++ cs).dropWhile isBlank = cs := by
  rw [List.dropWhile_append_of_pos h]
  cases cs with
  | nil => rfl
  | cons first rest => rw [List.dropWhile_cons_of_neg (by simpa using stop)]

private theorem exists_blanks (cs : List Char) :
    ∃ blanks, cs = blanks ++ cs.dropWhile isBlank ∧ (∀ ch ∈ blanks, isBlank ch = true) ∧
      ∀ ch ∈ (cs.dropWhile isBlank).head?, isBlank ch = false := by
  refine ⟨cs.takeWhile isBlank, List.takeWhile_append_dropWhile.symm,
    List.all_eq_true.1 List.all_takeWhile, fun ch hch => ?_⟩
  have stops := List.head?_dropWhile_not isBlank cs
  rw [Option.mem_def.1 hch] at stops
  exact stops

theorem trim_trims (cs : List Char) : Trims cs (trim cs) := by
  obtain ⟨before, hcs, hbefore, hfirst⟩ := exists_blanks cs
  obtain ⟨after, hrest, hafter, hlast⟩ := exists_blanks (trimStart cs).reverse
  have hstart : trimStart cs = trim cs ++ after.reverse := by
    have := congrArg List.reverse hrest
    simpa [trim] using this
  refine ⟨⟨before, after.reverse, ?_, hbefore, ?_⟩, ?_, ?_⟩
  · rw [List.append_assoc, ← hstart]
    exact hcs
  · simpa using hafter
  · intro ch hch
    refine hfirst ch ?_
    have : ch ∈ (trimStart cs).head? := by
      rw [hstart, List.head?_append, Option.mem_def.1 hch]
      rfl
    exact this
  · intro ch hch
    refine hlast ch ?_
    rw [trim, List.getLast?_reverse] at hch
    exact hch

theorem trim_eq_iff {cs core : List Char} : trim cs = core ↔ Trims cs core := by
  constructor
  · rintro rfl
    exact trim_trims cs
  · rintro ⟨⟨before, after, rfl, hbefore, hafter⟩, hfirst, hlast⟩
    cases core with
    | nil =>
      have blank : ∀ ch ∈ before ++ [] ++ after, isBlank ch = true := by
        intro ch hch
        rw [List.append_nil, List.mem_append] at hch
        exact hch.elim (hbefore ch) (hafter ch)
      have hstart : trimStart (before ++ [] ++ after ++ []) = [] :=
        dropWhile_isBlank blank (by simp)
      rw [List.append_nil] at hstart
      rw [trim, hstart]
      rfl
    | cons first rest =>
      have hstart : trimStart (before ++ first :: rest ++ after) = first :: rest ++ after := by
        rw [trimStart, List.append_assoc]
        exact dropWhile_isBlank hbefore hfirst
      have hend : (after.reverse ++ (first :: rest).reverse).dropWhile isBlank =
          (first :: rest).reverse := by
        refine dropWhile_isBlank (by simpa using hafter) fun ch hch => hlast ch ?_
        rwa [List.head?_reverse] at hch
      rw [trim, hstart, List.reverse_append, hend, List.reverse_reverse]

theorem Trims.self {cs : List Char} (h : ∀ ch ∈ cs, isBlank ch = false) : Trims cs cs :=
  ⟨⟨[], [], by simp, by simp, by simp⟩, fun ch hch => h ch (List.mem_of_mem_head? hch),
    fun ch hch => h ch (List.mem_of_getLast? hch)⟩

end LazyBinding.Text
