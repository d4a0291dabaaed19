import LazyBinding.SchemaCache

/-!
# Growth of a cache

Work on classes only ever appends tables of classes that were neither cached nor locked. Erasing
them again gives back what was there.
-/
namespace LazyBinding.SchemaCache

variable {c c' c'' : SchemaCache} {k : ClassPath} {new new' : List ClassPath}

theorem has_iff : c.has k = true ↔ ∃ table, c.get? k = some table := Option.isSome_iff_exists

theorem has_iff_mem_keys : c.has k = true ↔ k ∈ Dict.keys c.tables := Dict.has_iff

theorem has_eq_false_iff : c.has k = false ↔ c.get? k = none := by
  simp [has, get?, Dict.has]

theorem isLocked_iff : c.isLocked k = true ↔ k ∈ c.locks := by simp [isLocked]

theorem isLocked_eq_false_iff : c.isLocked k = false ↔ k ∉ c.locks := by simp [isLocked]

theorem put_of_absent (table : FieldTable) (absent : c.has k = false) :
    c.put k table = { c with tables := c.tables ++ [(k, table)] } := by
  have h : k ∉ Dict.keys c.tables := by simp [← has_iff_mem_keys, absent]
  simp [put, Dict.put_of_notMem table h]

theorem lockAll_eq {l : List ClassPath} (distinct : l.Nodup)
    (free : ∀ k ∈ l, c.isLocked k = false) : c.lockAll l = { c with locks := c.locks ++ l } := by
  have h : ∀ c : SchemaCache, c.lockAll l = { c with locks := OrderedSet.addAll c.locks l } := by
    clear distinct free
    induction l with
    | nil => intro c; rfl
    | cons a l ih => intro c; exact ih (c.lock a)
  rw [h, OrderedSet.addAll_eq_append distinct fun k hk => isLocked_eq_false_iff.1 (free k hk)]

theorem unlockAll_eq {locks held : List ClassPath} (hl : c.locks = locks ++ held)
    (apart : ∀ k ∈ held, k ∉ locks) : c.unlockAll held = { c with locks := locks } := by
  induction held generalizing c with
  | nil => rw [List.append_nil] at hl; subst hl; rfl
  | cons a held ih =>
    have ha : (c.unlock a).locks = locks ++ held := by
      simp [unlock, hl, List.erase_append_right _ (apart a (by simp))]
    exact ih ha fun k hk => apart k (List.mem_cons_of_mem _ hk)

theorem eraseAll_eq {tables added : Dict ClassPath FieldTable} (ht : c.tables = tables ++ added)
    (apart : ∀ k ∈ Dict.keys added, k ∉ Dict.keys tables) :
    c.eraseAll (Dict.keys added) = { c with tables := tables } := by
  induction added generalizing c with
  | nil => rw [List.append_nil] at ht; subst ht; rfl
  | cons entry added ih =>
    obtain ⟨k, table⟩ := entry
    have hk : (c.erase k).tables = tables ++ added := by
      simp [erase, ht, Dict.remove_append_cons table added (apart k (by simp [Dict.keys]))]
    exact ih hk fun j hj => apart j (List.mem_cons_of_mem _ hj)

/-- The tables of `c'` are those of `c`, followed by tables of the classes `new`, which are neither
cached nor locked in `c`. -/
structure Extends (c c' : SchemaCache) (new : List ClassPath) : Prop where
  tables : ∃ added, c'.tables = c.tables ++ added ∧ Dict.keys added = new
  distinct : new.Nodup
  absent : ∀ k ∈ new, c.has k = false
  free : ∀ k ∈ new, c.isLocked k = false

namespace Extends

theorem refl (c : SchemaCache) : c.Extends c [] :=
  ⟨⟨[], by simp, rfl⟩, by simp, by simp, by simp⟩

theorem of_tables_eq (h : c.Extends c' new) (ht : c''.tables = c'.tables) :
    c.Extends c'' new :=
  ⟨ht ▸ h.tables, h.distinct, h.absent, h.free⟩

theorem has_iff_or (h : c.Extends c' new) : c'.has k = true ↔ c.has k = true ∨ k ∈ new := by
  obtain ⟨added, ht, rfl⟩ := h.tables
  simp [has_iff_mem_keys, ht, Dict.keys]

theorem mono (h : c.Extends c' new) (hk : c.has k = true) : c'.has k = true :=
  h.has_iff_or.2 (Or.inl hk)

theorem mem_of_new (h : c.Extends c' new) (hk : c'.has k = true) (absent : c.has k = false) :
    k ∈ new :=
  (h.has_iff_or.1 hk).resolve_left (by simp [absent])

theorem trans (h : c.Extends c' new) (h' : c'.Extends c'' new')
    (locks : ∀ k, c.isLocked k = true → c'.isLocked k = true) :
    c.Extends c'' (OrderedSet.addAll new new') := by
  obtain ⟨added, ht, rfl⟩ := h.tables
  obtain ⟨added', ht', rfl⟩ := h'.tables
  have apart : ∀ k ∈ Dict.keys added', k ∉ Dict.keys added := fun k hk hk' => by
    have := h.has_iff_or.2 (Or.inr hk')
    simp [h'.absent k hk] at this
  rw [OrderedSet.addAll_eq_append h'.distinct apart]
  refine ⟨⟨added ++ added', by simp [ht', ht], by simp [Dict.keys]⟩, ?_, ?_, ?_⟩
  · exact List.nodup_append.2
      ⟨h.distinct, h'.distinct, fun a ha b hb hab => apart b hb (hab ▸ ha)⟩
  · intro k hk
    rcases List.mem_append.1 hk with hk | hk
    · exact h.absent k hk
    · exact Bool.eq_false_iff.2 fun hc => by simpa [h'.absent k hk] using h.mono hc
  · intro k hk
    rcases List.mem_append.1 hk with hk | hk
    · exact h.free k hk
    · exact Bool.eq_false_iff.2 fun hc => by simpa [h'.free k hk] using locks k hc

theorem put (h : c.Extends c' new) (table : FieldTable) (absent : c'.has k = false)
    (free : c.isLocked k = false) : c.Extends (c'.put k table) (OrderedSet.add new k) := by
  obtain ⟨added, ht, hkeys⟩ := h.tables
  have hk : k ∉ new := fun hk => by
    have := h.has_iff_or.2 (Or.inr hk)
    simp [absent] at this
  have hadd : OrderedSet.add new k = new ++ [k] := by simp [OrderedSet.add, hk]
  have habsent : c.has k = false :=
    Bool.eq_false_iff.2 fun hc => by simpa [absent] using h.mono hc
  refine ⟨⟨added ++ [(k, table)], ?_, ?_⟩, OrderedSet.nodup_add k h.distinct, ?_, ?_⟩
  · rw [put_of_absent table absent, ht]
    simp
  · rw [hadd, ← hkeys]
    simp [Dict.keys]
  · rw [hadd]
    intro j hj
    rcases List.mem_append.1 hj with hj | hj
    · exact h.absent j hj
    · rw [List.mem_singleton.1 hj]; exact habsent
  · rw [hadd]
    intro j hj
    rcases List.mem_append.1 hj with hj | hj
    · exact h.free j hj
    · rw [List.mem_singleton.1 hj]; exact free

/-- Erasing what was added gives back the tables from before. -/
theorem eraseAll (h : c.Extends c' new) (locks : c'.locks = c.locks) : c'.eraseAll new = c := by
  obtain ⟨added, ht, rfl⟩ := h.tables
  have apart : ∀ k ∈ Dict.keys added, k ∉ Dict.keys c.tables := fun k hk hc => by
    simpa [h.absent k hk] using has_iff_mem_keys.2 hc
  rw [eraseAll_eq ht apart, locks]

end Extends

end LazyBinding.SchemaCache
