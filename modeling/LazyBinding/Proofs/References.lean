import LazyBinding.Proofs.Ancestry

/-!
# References between classes

Paths as a grammar, namespaces, and what a reference means inside a class. The resolution of
references finds the meaning whenever there is one, and there is at most one.
-/
namespace LazyBinding

namespace ClassPath

/-! ### Paths -/

def StartsSegment (ch : Char) : Prop :=
  ('A' ≤ ch ∧ ch ≤ 'Z') ∨ ('a' ≤ ch ∧ ch ≤ 'z') ∨ ch = '_'

def ContinuesSegment (ch : Char) : Prop := StartsSegment ch ∨ ('0' ≤ ch ∧ ch ≤ '9')

instance : DecidablePred StartsSegment :=
  fun ch => inferInstanceAs (Decidable (('A' ≤ ch ∧ ch ≤ 'Z') ∨ ('a' ≤ ch ∧ ch ≤ 'z') ∨ ch = '_'))

instance : DecidablePred ContinuesSegment :=
  fun ch => inferInstanceAs (Decidable (StartsSegment ch ∨ ('0' ≤ ch ∧ ch ≤ '9')))

/-- A name without dots. -/
inductive IsSegment : List Char → Prop where
  | mk {first rest} (starts : StartsSegment first)
      (continues : ∀ ch ∈ rest, ContinuesSegment ch) : IsSegment (first :: rest)

/-- Segments joined by single dots. -/
inductive IsPath : List Char → Prop where
  | segment {cs} (h : IsSegment cs) : IsPath cs
  | dotted {cs rest} (h : IsSegment cs) (later : IsPath rest) : IsPath (cs ++ '.' :: rest)

private theorem within_iff {low high ch : Char} :
    (decide (low ≤ ch) && decide (ch ≤ high)) = true ↔ low ≤ ch ∧ ch ≤ high := by
  rw [Bool.and_eq_true, decide_eq_true_iff, decide_eq_true_iff]

theorem isSegmentStart_iff {ch : Char} : isSegmentStart ch = true ↔ StartsSegment ch := by
  have upper : ch.isUpper = true ↔ 'A' ≤ ch ∧ ch ≤ 'Z' := decide_eq_true_iff
  have lower : ch.isLower = true ↔ 'a' ≤ ch ∧ ch ≤ 'z' := within_iff
  have letter : ch.isAlpha = (ch.isUpper || ch.isLower) := rfl
  rw [isSegmentStart, letter, Bool.or_eq_true, Bool.or_eq_true, upper, lower, beq_iff_eq, or_assoc]
  rfl

theorem isSegmentPart_iff {ch : Char} : isSegmentPart ch = true ↔ ContinuesSegment ch := by
  have digit : ch.isDigit = true ↔ '0' ≤ ch ∧ ch ≤ '9' := within_iff
  have other : ch.isAlphanum = (ch.isAlpha || ch.isDigit) := rfl
  rw [ContinuesSegment, ← isSegmentStart_iff, isSegmentPart, isSegmentStart, other, Bool.or_eq_true,
    Bool.or_eq_true, Bool.or_eq_true, digit, or_right_comm]

theorem isSegment_iff {cs : List Char} : isSegment cs = true ↔ IsSegment cs := by
  cases cs with
  | nil => exact ⟨nofun, nofun⟩
  | cons first rest =>
    rw [isSegment, Bool.and_eq_true, isSegmentStart_iff, List.all_eq_true]
    simp only [isSegmentPart_iff]
    constructor
    · rintro ⟨starts, continues⟩
      exact .mk starts continues
    · rintro ⟨starts, continues⟩
      exact ⟨starts, continues⟩

theorem IsSegment.continues {cs : List Char} (h : IsSegment cs) :
    ∀ ch ∈ cs, ContinuesSegment ch := by
  obtain ⟨starts, continues⟩ := h
  exact List.forall_mem_cons.2 ⟨Or.inl starts, continues⟩

theorem IsPath.mem {cs : List Char} (h : IsPath cs) :
    ∀ ch ∈ cs, ch = '.' ∨ ContinuesSegment ch := by
  induction h with
  | segment h => exact fun ch hch => Or.inr (h.continues ch hch)
  | dotted h _ ih =>
    intro ch hch
    rcases List.mem_append.1 hch with hch | hch
    · exact Or.inr (h.continues ch hch)
    · rcases List.mem_cons.1 hch with rfl | hch
      · exact Or.inl rfl
      · exact ih ch hch

theorem IsPath.notMem {cs : List Char} (h : IsPath cs) (ch : Char) (dot : ch ≠ '.')
    (outside : ¬ ContinuesSegment ch) : ch ∉ cs := by
  intro hch
  exact (h.mem ch hch).elim dot outside

private theorem isPath_intercalate {segments : List (List Char)} (nonempty : segments ≠ [])
    (h : ∀ cs ∈ segments, IsSegment cs) : IsPath (['.'].intercalate segments) := by
  induction segments with
  | nil => exact absurd rfl nonempty
  | cons cs rest ih =>
    obtain ⟨first, later⟩ := List.forall_mem_cons.1 h
    cases rest with
    | nil =>
      rw [List.intercalate_singleton]
      exact .segment first
    | cons next rest =>
      have joined := IsPath.dotted first (ih (by simp) later)
      rwa [List.intercalate_cons_cons, List.append_assoc]

theorem isWellFormedText_iff {cs : List Char} : isWellFormedText cs = true ↔ IsPath cs := by
  rw [isWellFormedText, List.all_eq_true]
  simp only [isSegment_iff]
  constructor
  · intro h
    have joined := isPath_intercalate (by simp) h
    rwa [List.intercalate_splitOn] at joined
  · have noDot : ∀ {cs}, IsSegment cs → '.' ∉ cs := fun h hdot =>
      absurd (h.continues '.' hdot) (by decide)
    intro h
    induction h with
    | segment h =>
      rw [List.splitOn_eq_singleton (noDot h)]
      simpa using h
    | dotted h _ ih =>
      rw [List.splitOn_append_cons_self_of_not_mem (noDot h)]
      exact List.forall_mem_cons.2 ⟨h, ih⟩

private theorem ContinuesSegment.code {ch : Char} (h : ContinuesSegment ch) :
    48 ≤ ch.toNat ∧ ch.toNat ≤ 122 := by
  rcases h with (⟨low, high⟩ | ⟨low, high⟩ | rfl) | ⟨low, high⟩
  · have low : 65 ≤ ch.toNat := low
    have high : ch.toNat ≤ 90 := high
    omega
  · have low : 97 ≤ ch.toNat := low
    have high : ch.toNat ≤ 122 := high
    omega
  · decide
  · have low : 48 ≤ ch.toNat := low
    have high : ch.toNat ≤ 57 := high
    omega

theorem IsPath.noBlank {cs : List Char} (h : IsPath cs) : ∀ ch ∈ cs, Text.isBlank ch = false := by
  intro ch hch
  rcases h.mem ch hch with rfl | hch
  · decide
  · have hcode := hch.code
    simp only [Text.isBlank, Bool.or_eq_false_iff, Bool.and_eq_false_iff, decide_eq_false_iff_not,
      beq_eq_false_iff_ne]
    omega

/-! ### Namespaces -/

/-- The path is that of the namespace, a dot and a name. -/
def IsIn (c : ClassPath) (space : String) : Prop :=
  ∃ name, '.' ∉ name ∧ c.text.toList = space.toList ++ '.' :: name

theorem namespace?_eq_some_iff {c : ClassPath} {space : String} :
    c.namespace? = some space ↔ c.IsIn space := by
  rw [namespace?]
  constructor
  · intro h
    split at h
    · cases h
    · next dot before hdrop =>
      cases h
      have hdot : dot = '.' := by
        have stops := List.head?_dropWhile_not (· != '.') c.text.toList.reverse
        rw [hdrop] at stops
        simpa using stops
      have whole := List.takeWhile_append_dropWhile (p := (· != '.')) (l := c.text.toList.reverse)
      rw [hdrop, hdot] at whole
      refine ⟨(c.text.toList.reverse.takeWhile (· != '.')).reverse, ?_, ?_⟩
      · intro hmem
        have stops := List.all_takeWhile (p := (· != '.')) (l := c.text.toList.reverse)
        simpa using List.all_eq_true.1 stops _ (List.mem_reverse.1 hmem)
      · have := congrArg List.reverse whole
        simpa using this.symm
  · rintro ⟨name, fresh, htext⟩
    have hdrop : c.text.toList.reverse.dropWhile (· != '.') = '.' :: space.toList.reverse := by
      rw [htext, List.reverse_append, List.reverse_cons, List.append_assoc,
        List.dropWhile_append_of_pos]
      · rfl
      · intro ch hch
        have : ch ≠ '.' := fun h => fresh (h ▸ List.mem_reverse.1 hch)
        simpa using this
    simp [hdrop]

end ClassPath

namespace Registry

open ClassPath (IsPath)

variable {r : Registry} {source cls : ClassPath}

/-! ### References -/

theorem isPath_of_contains (h : r.contains cls = true) : IsPath cls.text.toList := by
  have known : cls ∈ r.classes.map ClassDecl.id := by simpa [contains, ids] using h
  obtain ⟨d, hd, rfl⟩ := List.mem_map.1 known
  refine ClassPath.isWellFormedText_iff.1 ?_
  rcases List.mem_cons.1 hd with rfl | hd
  · decide
  · exact r.wellFormed d hd

theorem isPath_root : IsPath ClassPath.root.text.toList :=
  isPath_of_contains (r := empty) contains_root

/-- The class that a reference means inside the class `source`. -/
inductive Means (r : Registry) (source : ClassPath) : List Char → ClassPath → Prop where
  /-- The class of exactly the path behind the backslash. -/
  | absolute {path} (h : IsPath path) (known : r.contains ⟨.ofList path⟩ = true) :
      Means r source ('\\' :: path) ⟨.ofList path⟩
  | root : Means r source ClassPath.root.text.toList .root
  /-- The class of that name in the namespace of `source`. -/
  | sibling {path space} (h : IsPath path) (other : path ≠ ClassPath.root.text.toList)
      (inside : source.IsIn space)
      (known : r.contains (.inNamespace space (.ofList path)) = true) :
      Means r source path (.inNamespace space (.ofList path))
  | whole {path} (h : IsPath path) (other : path ≠ ClassPath.root.text.toList)
      (noSibling : ∀ space, source.IsIn space →
        r.contains (.inNamespace space (.ofList path)) = false)
      (known : r.contains ⟨.ofList path⟩ = true) : Means r source path ⟨.ofList path⟩

theorem lookup_eq_some_iff {c : ClassPath} :
    r.lookup c.text = some cls ↔ r.contains c = true ∧ c = cls := by
  simp [lookup]

theorem lookup_eq_none_iff {c : ClassPath} : r.lookup c.text = none ↔ r.contains c = false := by
  simp [lookup]

theorem resolve_absolute {path : List Char} (h : Text.trim ('\\' :: path) = '\\' :: path) :
    r.resolve (.ofList ('\\' :: path)) source = r.lookup (.ofList path) := by
  simp only [resolve, String.toList_ofList, h]

theorem resolve_root : r.resolve ClassPath.root.text source = some .root := by
  have trimmed : Text.trim ClassPath.root.text.toList = ClassPath.root.text.toList := by decide
  rw [resolve, trimmed]
  rfl

theorem resolve_plain {path : List Char} (trimmed : Text.trim path = path)
    (plain : path.head? ≠ some '\\') (other : path ≠ ClassPath.root.text.toList) :
    r.resolve (.ofList path) source =
      match source.namespace? with
      | none => r.lookup (.ofList path)
      | some space =>
        (r.lookup (ClassPath.inNamespace space (.ofList path)).text).orElse fun _ =>
          r.lookup (.ofList path) := by
  have hname : String.ofList path ≠ ClassPath.root.text := by
    intro h
    exact other (by rw [← h, String.toList_ofList])
  rw [resolve, String.toList_ofList, trimmed]
  split
  · exact absurd rfl plain
  · exact if_neg hname

/-- A name that is not that of the root class means its sibling if there is one, and the whole path
else. -/
theorem resolve_plain_eq_some_iff {path : List Char} (h : IsPath path)
    (trimmed : Text.trim path = path) (plain : path.head? ≠ some '\\')
    (other : path ≠ ClassPath.root.text.toList) :
    r.resolve (.ofList path) source = some cls ↔ r.Means source path cls := by
  rw [resolve_plain trimmed plain other]
  constructor
  · intro found
    split at found
    · next alone =>
      obtain ⟨known, rfl⟩ := lookup_eq_some_iff.1 found
      refine .whole h other (fun space inside => ?_) known
      rw [ClassPath.namespace?_eq_some_iff.2 inside] at alone
      cases alone
    · next space hspace =>
      have inside := ClassPath.namespace?_eq_some_iff.1 hspace
      rcases Option.or_eq_some_iff.1 (by simpa using found) with found | ⟨missing, found⟩
      · obtain ⟨known, rfl⟩ := lookup_eq_some_iff.1 found
        exact .sibling h other inside known
      · obtain ⟨known, rfl⟩ := lookup_eq_some_iff.1 found
        refine .whole h other (fun space' inside' => ?_) known
        rw [ClassPath.namespace?_eq_some_iff.2 inside'] at hspace
        cases hspace
        exact lookup_eq_none_iff.1 missing
  · intro means
    cases means with
    | absolute => exact absurd rfl plain
    | root => exact absurd rfl other
    | sibling _ _ inside known =>
      simp only [ClassPath.namespace?_eq_some_iff.2 inside]
      rw [lookup_eq_some_iff.2 ⟨known, rfl⟩]
      rfl
    | whole _ _ noSibling known =>
      have found : r.lookup (.ofList path) = _ := lookup_eq_some_iff.2 ⟨known, rfl⟩
      split
      · exact found
      · next space hspace =>
        have missing := noSibling space (ClassPath.namespace?_eq_some_iff.1 hspace)
        rw [lookup_eq_none_iff.2 missing]
        exact found

private theorem noBlank_of_isPath {word : List Char}
    (h : IsPath (word.dropWhile (· == '\\'))) : ∀ ch ∈ word, Text.isBlank ch = false := by
  intro ch hch
  rw [← List.takeWhile_append_dropWhile (p := (· == '\\')) (l := word)] at hch
  rcases List.mem_append.1 hch with hch | hch
  · have slashes := List.all_takeWhile (p := (· == '\\')) (l := word)
    obtain rfl : ch = '\\' := by simpa using List.all_eq_true.1 slashes ch hch
    decide
  · exact h.noBlank ch hch

private theorem head?_ne_of_isPath {path : List Char} (h : IsPath path) :
    path.head? ≠ some '\\' := by
  intro hhead
  exact h.notMem '\\' (by decide) (by decide) (List.mem_of_mem_head? hhead)

private theorem dropWhile_slash {path : List Char} (plain : path.head? ≠ some '\\') :
    path.dropWhile (· == '\\') = path := by
  cases path with
  | nil => rfl
  | cons first rest =>
    have hfirst : first ≠ '\\' := by simpa using plain
    exact List.dropWhile_cons_of_neg (by simpa using hfirst)

theorem Means.contains {word : List Char} (h : r.Means source word cls) :
    r.contains cls = true := by
  cases h with
  | absolute _ known => exact known
  | root => exact contains_root
  | sibling _ _ _ known => exact known
  | whole _ _ _ known => exact known

theorem Means.isPath {word : List Char} (h : r.Means source word cls) :
    IsPath (word.dropWhile (· == '\\')) := by
  have plain : ∀ {path}, IsPath path → path.dropWhile (· == '\\') = path := fun h =>
    dropWhile_slash (head?_ne_of_isPath h)
  cases h with
  | absolute h _ =>
    rw [List.dropWhile_cons_of_pos (by simp), plain h]
    exact h
  | root =>
    rw [plain isPath_root]
    exact isPath_root
  | sibling h _ _ _ => rwa [plain h]
  | whole h _ _ _ => rwa [plain h]

theorem resolve_absolute_eq_some_iff {path : List Char}
    (trimmed : Text.trim ('\\' :: path) = '\\' :: path) :
    r.resolve (.ofList ('\\' :: path)) source = some cls ↔ r.Means source ('\\' :: path) cls := by
  rw [resolve_absolute trimmed]
  constructor
  · intro found
    obtain ⟨known, rfl⟩ := lookup_eq_some_iff.1 found
    -- A second backslash is no part of a path, so nothing that has one is registered.
    have hpath : IsPath (String.ofList path).toList := isPath_of_contains known
    rw [String.toList_ofList] at hpath
    exact .absolute hpath known
  · intro means
    cases means with
    | absolute _ known => exact lookup_eq_some_iff.2 ⟨known, rfl⟩
    | sibling h _ _ _ => exact absurd rfl (head?_ne_of_isPath h)
    | whole h _ _ _ => exact absurd rfl (head?_ne_of_isPath h)

theorem means_root_iff : r.Means source ClassPath.root.text.toList cls ↔ cls = .root := by
  constructor
  · intro means
    generalize hword : ClassPath.root.text.toList = word at means
    cases means with
    | absolute =>
      have plain := head?_ne_of_isPath isPath_root
      rw [hword] at plain
      exact absurd rfl plain
    | root => rfl
    | sibling _ other => exact absurd hword.symm other
    | whole _ other => exact absurd hword.symm other
  · rintro rfl
    exact .root

/-- A path behind backslashes is resolved to the class that it means. -/
theorem resolve_eq_some_iff {word : List Char} (h : IsPath (word.dropWhile (· == '\\'))) :
    r.resolve (.ofList word) source = some cls ↔ r.Means source word cls := by
  have trimmed : Text.trim word = word := Text.trim_eq_iff.2 (.self (noBlank_of_isPath h))
  by_cases plain : word.head? = some '\\'
  · obtain ⟨path, rfl⟩ := List.head?_eq_some_iff.1 plain
    exact resolve_absolute_eq_some_iff trimmed
  · rw [dropWhile_slash plain] at h
    by_cases other : word = ClassPath.root.text.toList
    · rw [other, String.ofList_toList, resolve_root, means_root_iff, Option.some_inj, eq_comm]
    · exact resolve_plain_eq_some_iff h trimmed plain other

end Registry

end LazyBinding
