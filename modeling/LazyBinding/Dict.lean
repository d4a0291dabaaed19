import LazyBinding.OrderedSet

/-!
# Insertion-ordered dictionaries

Entries keep the order in which their keys first came. Writing a key that is there replaces its
value in place; erasing a key closes the gap.
-/
namespace LazyBinding

/-- Entries in order; a dictionary in normal form has no key twice. -/
abbrev Dict (κ α : Type) := List (κ × α)

namespace Dict

variable {κ α β : Type}

def keys (d : Dict κ α) : List κ := d.map Prod.fst

def names [DecidableEq κ] (d : Dict κ α) : OrderedSet κ := OrderedSet.addAll [] (keys d)

def values (d : Dict κ α) : List α := d.map Prod.snd

/-- Normal form: no key twice. -/
def Distinct (d : Dict κ α) : Prop := (keys d).Nodup

theorem distinct_nil : Distinct ([] : Dict κ α) := List.nodup_nil

theorem distinct_cons {d : Dict κ α} {k : κ} {a : α} :
    Distinct ((k, a) :: d) ↔ k ∉ keys d ∧ Distinct d := List.nodup_cons

variable [DecidableEq κ]

theorem mem_names {d : Dict κ α} {k : κ} : k ∈ names d ↔ k ∈ keys d := by
  rw [names, OrderedSet.mem_addAll]
  simp

theorem nodup_names (d : Dict κ α) : (names d).Nodup := OrderedSet.nodup_addAll List.nodup_nil

def get? (d : Dict κ α) (k : κ) : Option α :=
  match d with
  | [] => none
  | (k', a) :: rest => if k' = k then some a else get? rest k

def has (d : Dict κ α) (k : κ) : Bool := (get? d k).isSome

/-- A known key keeps its place and takes the new value; a new key goes last. -/
def put (d : Dict κ α) (k : κ) (a : α) : Dict κ α :=
  match d with
  | [] => [(k, a)]
  | (k', b) :: rest => if k' = k then (k, a) :: rest else (k', b) :: put rest k a

def remove (d : Dict κ α) (k : κ) : Dict κ α :=
  match d with
  | [] => []
  | (k', b) :: rest => if k' = k then rest else (k', b) :: remove rest k

def putAll (d : Dict κ α) (entries : Dict κ α) : Dict κ α :=
  entries.foldl (fun d entry => put d entry.1 entry.2) d

/-- The dictionary of a list of entries: a repeated key keeps its first place and its last
value. -/
def ofList (entries : List (κ × α)) : Dict κ α := putAll [] entries

@[simp] theorem get?_nil (k : κ) : get? ([] : Dict κ α) k = none := rfl

theorem get?_put_self (d : Dict κ α) (k : κ) (a : α) : get? (put d k a) k = some a := by
  induction d with
  | nil => simp [put, get?]
  | cons entry rest ih =>
    obtain ⟨k', b⟩ := entry
    by_cases h : k' = k <;> simp [put, get?, h, ih]

theorem get?_put_of_ne (d : Dict κ α) {k j : κ} (a : α) (h : j ≠ k) :
    get? (put d k a) j = get? d j := by
  induction d with
  | nil => simp [put, get?, Ne.symm h]
  | cons entry rest ih =>
    obtain ⟨k', b⟩ := entry
    by_cases hk : k' = k
    · subst hk
      simp [put, get?, Ne.symm h]
    · simp only [put, if_neg hk, get?, ih]

theorem get?_eq_none_iff (d : Dict κ α) (k : κ) : get? d k = none ↔ k ∉ keys d := by
  induction d with
  | nil => simp [keys]
  | cons entry rest ih =>
    obtain ⟨k', b⟩ := entry
    by_cases h : k' = k
    · simp [get?, keys, h]
    · have hk : k ≠ k' := Ne.symm h
      simpa [get?, keys, h, hk] using ih

theorem keys_put (d : Dict κ α) (k : κ) (a : α) :
    keys (put d k a) = if k ∈ keys d then keys d else keys d ++ [k] := by
  induction d with
  | nil => simp [put, keys]
  | cons entry rest ih =>
    obtain ⟨k', b⟩ := entry
    by_cases h : k' = k
    · simp [put, keys, h]
    · have hk : k ≠ k' := Ne.symm h
      simp only [keys] at ih
      by_cases hm : k ∈ rest.map Prod.fst <;> simp [put, keys, h, hk, ih, hm]

theorem keys_prefix_put (d : Dict κ α) (k : κ) (a : α) : keys d <+: keys (put d k a) := by
  rw [keys_put]
  split
  · exact List.prefix_rfl
  · exact List.prefix_append _ _

theorem keys_prefix_putAll (d entries : Dict κ α) : keys d <+: keys (putAll d entries) := by
  induction entries generalizing d with
  | nil => exact List.prefix_rfl
  | cons entry rest ih => exact (keys_prefix_put d entry.1 entry.2).trans (ih _)

theorem keys_putAll (d entries : Dict κ α) :
    keys (putAll d entries) = OrderedSet.addAll (keys d) (keys entries) := by
  induction entries generalizing d with
  | nil => rfl
  | cons entry rest ih =>
    refine (ih (put d entry.1 entry.2)).trans ?_
    rw [keys_put]
    rfl

theorem has_iff {d : Dict κ α} {k : κ} : has d k = true ↔ k ∈ keys d := by
  rw [has, Option.isSome_iff_ne_none, ne_eq, get?_eq_none_iff, Classical.not_not]

theorem put_of_notMem {d : Dict κ α} {k : κ} (a : α) (h : k ∉ keys d) :
    put d k a = d ++ [(k, a)] := by
  induction d with
  | nil => rfl
  | cons entry rest ih =>
    obtain ⟨k', b⟩ := entry
    simp only [keys, List.map_cons, List.mem_cons, not_or] at h
    simp [put, Ne.symm h.1, ih h.2]

theorem remove_append_cons {d : Dict κ α} {k : κ} (a : α) (e : Dict κ α) (h : k ∉ keys d) :
    remove (d ++ (k, a) :: e) k = d ++ e := by
  induction d with
  | nil => simp [remove]
  | cons entry rest ih =>
    obtain ⟨k', b⟩ := entry
    simp only [keys, List.map_cons, List.mem_cons, not_or] at h
    simp [remove, Ne.symm h.1, ih h.2]

theorem get?_append {d : Dict κ α} {k : κ} {a : α} (e : Dict κ α) (h : get? d k = some a) :
    get? (d ++ e) k = some a := by
  induction d with
  | nil => cases h
  | cons entry rest ih =>
    obtain ⟨k', b⟩ := entry
    rw [List.cons_append, get?]
    by_cases hk : k' = k
    · rw [if_pos hk]
      rwa [get?, if_pos hk] at h
    · rw [if_neg hk]
      rw [get?, if_neg hk] at h
      exact ih h

theorem mem_of_get? {d : Dict κ α} {k : κ} {a : α} (h : get? d k = some a) : (k, a) ∈ d := by
  induction d with
  | nil => cases h
  | cons entry rest ih =>
    obtain ⟨k', b⟩ := entry
    by_cases hk : k' = k
    · subst hk
      obtain rfl : b = a := by simpa [get?] using h
      exact List.mem_cons_self
    · rw [get?, if_neg hk] at h
      exact List.mem_cons_of_mem _ (ih h)

theorem get?_map (f : α → β) (d : Dict κ α) (k : κ) :
    get? (d.map fun entry => (entry.1, f entry.2)) k = (get? d k).map f := by
  induction d with
  | nil => rfl
  | cons entry rest ih =>
    rw [List.map_cons, get?, get?]
    split
    · rfl
    · exact ih

theorem mem_put {d : Dict κ α} {k : κ} {a : α} {entry : κ × α} (h : entry ∈ put d k a) :
    entry = (k, a) ∨ entry ∈ d := by
  induction d with
  | nil => exact Or.inl (List.mem_singleton.1 h)
  | cons first rest ih =>
    obtain ⟨k', b⟩ := first
    by_cases hk : k' = k
    · simp only [put, if_pos hk] at h
      exact (List.mem_cons.1 h).imp_right (List.mem_cons_of_mem _)
    · simp only [put, if_neg hk] at h
      rcases List.mem_cons.1 h with rfl | h
      · exact Or.inr List.mem_cons_self
      · exact (ih h).imp_right (List.mem_cons_of_mem _)

theorem mem_putAll {d entries : Dict κ α} {entry : κ × α} (h : entry ∈ putAll d entries) :
    entry ∈ d ∨ entry ∈ entries := by
  induction entries generalizing d with
  | nil => exact Or.inl h
  | cons first rest ih =>
    have later : entry ∈ put d first.1 first.2 ∨ entry ∈ rest := ih h
    rcases later with later | later
    · rcases mem_put later with rfl | known
      · exact Or.inr List.mem_cons_self
      · exact Or.inl known
    · exact Or.inr (List.mem_cons_of_mem _ later)

theorem put_get? {d : Dict κ α} {k : κ} {a : α} (h : get? d k = some a) : put d k a = d := by
  induction d with
  | nil => cases h
  | cons entry rest ih =>
    obtain ⟨k', b⟩ := entry
    by_cases hk : k' = k
    · subst hk
      obtain rfl : b = a := by simpa [get?] using h
      simp [put]
    · simp only [get?, if_neg hk] at h
      simp [put, hk, ih h]

/-! ### Normal form -/

theorem get?_of_mem {d : Dict κ α} {entry : κ × α} (distinct : Distinct d) (h : entry ∈ d) :
    get? d entry.1 = some entry.2 := by
  induction d with
  | nil => cases h
  | cons first rest ih =>
    obtain ⟨k, a⟩ := first
    obtain ⟨fresh, distinct⟩ := distinct_cons.1 distinct
    rcases List.mem_cons.1 h with rfl | later
    · exact if_pos rfl
    · have hk : k ≠ entry.1 := by
        intro hk
        exact fresh (hk ▸ List.mem_map_of_mem later)
      rw [get?, if_neg hk]
      exact ih distinct later

theorem eq_of_get? {d d' : Dict κ α} (distinct : Distinct d) (hkeys : keys d' = keys d)
    (h : ∀ entry ∈ d, get? d' entry.1 = some entry.2) : d' = d := by
  induction d generalizing d' with
  | nil => exact List.map_eq_nil_iff.1 hkeys
  | cons entry rest ih =>
    obtain ⟨k, a⟩ := entry
    obtain ⟨fresh, others⟩ := distinct_cons.1 distinct
    cases d' with
    | nil => cases hkeys
    | cons entry' rest' =>
      obtain ⟨k', b⟩ := entry'
      obtain ⟨rfl, hrest⟩ := List.cons_eq_cons.1 hkeys
      obtain rfl : b = a := by simpa [get?] using h (k', a) List.mem_cons_self
      congr 1
      refine ih others hrest fun entry hentry => ?_
      have hmem : entry.1 ∈ keys rest := List.mem_map_of_mem hentry
      have hk : k' ≠ entry.1 := fun hk => fresh (by rwa [← hk] at hmem)
      have stored := h entry (List.mem_cons_of_mem _ hentry)
      rwa [get?, if_neg hk] at stored

theorem mem_keys_put {d : Dict κ α} {k j : κ} {a : α} :
    j ∈ keys (put d k a) ↔ j = k ∨ j ∈ keys d := by
  rw [keys_put]
  split
  · next known =>
    constructor
    · exact Or.inr
    · rintro (rfl | h)
      · exact known
      · exact h
  · rw [List.mem_append, List.mem_singleton]
    exact Or.comm

theorem distinct_put {d : Dict κ α} (k : κ) (a : α) (h : Distinct d) : Distinct (put d k a) := by
  induction d with
  | nil => exact distinct_cons.2 ⟨List.not_mem_nil, distinct_nil⟩
  | cons entry rest ih =>
    obtain ⟨k', b⟩ := entry
    obtain ⟨fresh, distinct⟩ := distinct_cons.1 h
    by_cases hk : k' = k
    · subst hk
      rw [put, if_pos rfl]
      exact distinct_cons.2 ⟨fresh, distinct⟩
    · rw [put, if_neg hk]
      refine distinct_cons.2 ⟨fun hmem => ?_, ih distinct⟩
      exact (mem_keys_put.1 hmem).elim hk fresh

theorem putAll_eq_append {d entries : Dict κ α} (h : Distinct (d ++ entries)) :
    putAll d entries = d ++ entries := by
  induction entries generalizing d with
  | nil => exact (List.append_nil d).symm
  | cons entry rest ih =>
    have fresh : entry.1 ∉ keys d := by
      intro known
      rw [Distinct, keys, List.map_append, List.map_cons] at h
      exact (List.nodup_append.1 h).2.2 _ known _ List.mem_cons_self rfl
    have split : d ++ entry :: rest = d ++ [entry] ++ rest := by rw [List.append_assoc]; rfl
    rw [split] at h ⊢
    rw [← ih h, ← put_of_notMem entry.2 fresh]
    rfl

theorem ofList_eq_self {d : Dict κ α} (h : Distinct d) : ofList d = d := putAll_eq_append h

/-- Whatever holds of entries that come and of those that are there holds of all in the end, and no
key comes twice. -/
theorem putAll_induction {P : κ × α → Prop} {d : Dict κ α} {entries : List (κ × α)}
    (distinct : Distinct d) (known : ∀ entry ∈ d, P entry) (new : ∀ entry ∈ entries, P entry) :
    Distinct (putAll d entries) ∧ ∀ entry ∈ putAll d entries, P entry := by
  induction entries generalizing d with
  | nil => exact ⟨distinct, known⟩
  | cons first rest ih =>
    refine ih (distinct_put _ _ distinct) (fun entry h => ?_) fun entry h =>
      new entry (List.mem_cons_of_mem _ h)
    rcases mem_put h with rfl | h
    · exact new _ List.mem_cons_self
    · exact known entry h

theorem distinct_ofList (entries : List (κ × α)) : Distinct (ofList entries) :=
  (putAll_induction (P := fun _ => True) distinct_nil (by simp) (by simp)).1

theorem mem_ofList {entries : List (κ × α)} {entry : κ × α} (h : entry ∈ ofList entries) :
    entry ∈ entries :=
  (putAll_induction (P := (· ∈ entries)) distinct_nil (by simp) fun _ => id).2 entry h

end Dict

end LazyBinding
