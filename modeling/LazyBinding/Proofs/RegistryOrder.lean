import LazyBinding.Proofs.CheckAndExport
import LazyBinding.Proofs.DescribedClasses
import Mathlib.Data.List.Find
import Mathlib.Data.List.Nodup

/-!
# The order of classes

Classes are looked up by name, and nothing that is done with a registry goes through its classes in
their order. So two registries with the same classes resolve references, compile and describe alike,
and a manifest may list its classes in any order.
-/
namespace LazyBinding

namespace Registry

variable {r r' : Registry}

/-- The same classes in another order. -/
def Reorders (r r' : Registry) : Prop := r.declared.Perm r'.declared

namespace Reorders

theorem classes (h : r.Reorders r') : r.classes.Perm r'.classes := h.cons ClassDecl.root

theorem ids (h : r.Reorders r') : r.ids.Perm r'.ids := h.classes.map ClassDecl.id

theorem get? (h : r.Reorders r') (c : ClassPath) : r.get? c = r'.get? c := by
  refine List.find?_eq_find?_of_perm h.classes ?_
  rintro d ⟨hd, hdc⟩ e ⟨he, hec⟩
  have same : d.id = e.id := by simp_all
  have distinct : (r.classes.map ClassDecl.id).Nodup := r.distinct
  exact List.inj_on_of_nodup_map distinct hd he same

theorem contains (h : r.Reorders r') (c : ClassPath) : r.contains c = r'.contains c :=
  h.ids.contains_eq

theorem lookup (h : r.Reorders r') (path : String) : r.lookup path = r'.lookup path := by
  simp only [Registry.lookup, h.contains]

theorem resolve (h : r.Reorders r') (reference : String) (source : ClassPath) :
    r.resolve reference source = r'.resolve reference source := by
  simp only [Registry.resolve, h.lookup]

theorem parent? (h : r.Reorders r') (d : ClassDecl) : r.parent? d = r'.parent? d := by
  simp only [Registry.parent?, h.resolve]

theorem climb (h : r.Reorders r') (start : ClassPath) (steps : Nat) (below : List ClassPath)
    (c : ClassPath) : r.climb start steps below c = r'.climb start steps below c := by
  induction steps generalizing below c with
  | zero => rfl
  | succ steps ih => simp only [Registry.climb, h.get?, h.parent?, ih]

theorem ancestorChain (h : r.Reorders r') (c : ClassPath) :
    r.ancestorChain c = r'.ancestorChain c := by
  rw [Registry.ancestorChain, Registry.ancestorChain, h.climb, h.classes.length_eq]

theorem isA (h : r.Reorders r') (c ancestor : ClassPath) :
    r.isA c ancestor = r'.isA c ancestor := by
  simp only [Registry.isA, h.contains, h.ancestorChain]

theorem parse (h : r.Reorders r') (source : ClassPath) (definition : String) :
    FieldType.parse r source definition = FieldType.parse r' source definition := by
  simp only [FieldType.parse, FieldType.parseBase, h.resolve]

theorem free (h : r.Reorders r') (cache : SchemaCache) : r.free cache = r'.free cache :=
  (h.ids.filter _).length_eq

theorem uncached (h : r.Reorders r') (cache : SchemaCache) : r.uncached cache = r'.uncached cache :=
  (h.ids.filter _).length_eq

/-! ### Compilation -/

section

variable {nested : ClassPath → SchemaCache → Attempt}

theorem declare (h : r.Reorders r') (chain : List ClassPath) (owner : ClassPath) :
    Progress.declare r nested chain owner = Progress.declare r' nested chain owner := by
  funext p x
  cases x with
  | field name definition => simp only [Progress.declare, Progress.declareField, h.parse]
  | imports reference => simp only [Progress.declare, Progress.importClass, h.resolve]

theorem descend (h : r.Reorders r') (chain : List ClassPath) :
    Progress.descend r nested chain = Progress.descend r' nested chain := by
  funext p c
  simp only [Progress.descend, h.get?, h.declare]

theorem replay (h : r.Reorders r') (cls : ClassPath) (cache : SchemaCache) :
    Progress.replay r nested cls cache = Progress.replay r' nested cls cache := by
  simp only [Progress.replay, h.ancestorChain, h.descend]

end

theorem make (h : r.Reorders r') (depth : Nat) : Attempt.make r depth = Attempt.make r' depth := by
  induction depth with
  | zero => rfl
  | succ depth ih =>
    funext cls cache
    simp only [Attempt.make, ih, h.replay]

theorem settle (h : r.Reorders r') (budget : Nat) (queue : List ClassPath) (cache : SchemaCache)
    (compiled : OrderedSet ClassPath) :
    Attempt.settle r budget queue cache compiled =
      Attempt.settle r' budget queue cache compiled := by
  fun_induction Attempt.settle r budget queue cache compiled with
  | case1 => rw [Attempt.settle_nil]
  | case2 cache compiled budget cls rest cached ih => rw [Attempt.settle_cached cached, ih]
  | case3 cache compiled cls rest absent =>
    rw [Attempt.settle_spent (by simpa using absent)]
  | case4 cache compiled cls rest absent budget nested compiled' stop failed =>
    rw [Attempt.settle.eq_def]
    simp only [absent, ← h.make, ← h.free, failed, nested, compiled']
    rfl
  | case5 cache compiled cls rest absent budget nested compiled' pending made ih =>
    rw [ih, Attempt.settle.eq_def r' (budget + 1)]
    simp only [absent, ← h.make, ← h.free, made, nested, compiled']
    rfl

theorem compile (h : r.Reorders r') (cache : SchemaCache) (cls : ClassPath) :
    cache.compile r cls = cache.compile r' cls := by
  simp only [SchemaCache.compile, h.make, h.free, h.uncached, h.settle]

end Reorders

end Registry

/-! ### Descriptions -/

/-- The same schema with the classes of its registry in another order. -/
structure Schema.Reorders (s s' : Schema) : Prop where
  registry : s.registry.Reorders s'.registry
  cache : s.cache = s'.cache

namespace Schema.Reorders

variable {s s' : Schema}

theorem compiled (h : s.Reorders s') (cls : ClassPath) :
    s.cache.compile s.registry cls = s'.cache.compile s'.registry cls := by
  rw [h.cache, h.registry.compile]

theorem table (h : s.Reorders s') (cls : ClassPath) : (s.table cls).2 = (s'.table cls).2 := by
  show (s.cache.compile s.registry cls).2 = (s'.cache.compile s'.registry cls).2
  rw [h.compiled]

theorem after_table (h : s.Reorders s') (cls : ClassPath) :
    (s.table cls).1.Reorders (s'.table cls).1 := by
  refine ⟨h.registry, ?_⟩
  show (s.cache.compile s.registry cls).1 = (s'.cache.compile s'.registry cls).1
  rw [h.compiled]

theorem classSchema (h : s.Reorders s') (cls : ClassPath) (table : FieldTable) :
    Description.classSchema s.registry cls table =
      Description.classSchema s'.registry cls table := by
  simp only [Description.classSchema, h.registry.get?]

theorem definitions (h : s.Reorders s') (budget : Nat) (queue : List ClassPath)
    (seen : OrderedSet ClassPath) :
    (Description.definitions budget queue seen s).2 =
      (Description.definitions budget queue seen s').2 := by
  induction budget generalizing queue seen s s' with
  | zero =>
    cases queue with
    | nil => rw [Description.definitions, Description.definitions]
    | cons cls rest => rw [Description.definitions, Description.definitions]
  | succ budget ih =>
    induction queue with
    | nil => rw [Description.definitions, Description.definitions]
    | cons cls rest ih' =>
      by_cases known : cls ∈ seen
      · rw [Description.definitions_seen known, Description.definitions_seen known, ih']
      · have same := h.table cls
        cases result : (s.table cls).2 with
        | error e =>
          rw [Description.definitions_failed known result,
            Description.definitions_failed known (same ▸ result)]
        | ok table =>
          rw [Description.definitions_compiled known result,
            Description.definitions_compiled known (same ▸ result), ih (h.after_table cls),
            h.classSchema]

theorem jsonSchema (h : s.Reorders s') (cls : ClassPath) :
    (s.jsonSchema cls).2 = (s'.jsonSchema cls).2 := by
  have result : ∀ s : Schema, (s.jsonSchema cls).2 =
      (Description.definitions (s.registry.classes.length + 1) [cls] [] s).2.map
        (Description.document cls) := by
    intro s
    unfold Schema.jsonSchema
    split
    · next failed => rw [failed]; rfl
    · next made => rw [made]; rfl
  rw [result, result, h.registry.classes.length_eq, h.definitions]

end Schema.Reorders

/-! ### Manifests -/

namespace Registry

variable {r r' : Registry} {decls : List ClassDecl}

theorem register_ok {d : ClassDecl} (wellFormed : d.id.isWellFormed = true) (fresh : d.id ∉ r.ids) :
    ∃ r', r.register d = .ok r' := by
  rw [register, dif_pos wellFormed, dif_neg fresh]
  exact ⟨_, rfl⟩

/-- Classes can be registered one after another exactly if their paths are well-formed and none
comes twice or is that of the root. -/
theorem ofDecls_accepts_iff :
    (∃ r, ofDecls decls = .ok r) ↔
      (∀ d ∈ decls, d.id.isWellFormed = true) ∧
        (ClassPath.root :: decls.map ClassDecl.id).Nodup := by
  constructor
  · rintro ⟨r, accepted⟩
    have hdecls := declared_ofDecls accepted
    have distinct := r.distinct
    rw [hdecls] at distinct
    exact ⟨fun d hd => r.wellFormed d (hdecls ▸ hd), distinct⟩
  · rintro ⟨wellFormed, distinct⟩
    have all : ∀ (decls : List ClassDecl) (before : Registry),
        (∀ d ∈ decls, d.id.isWellFormed = true) → (before.ids ++ decls.map ClassDecl.id).Nodup →
        ∃ r, decls.foldlM register before = .ok r := by
      intro decls
      induction decls with
      | nil => exact fun before _ _ => ⟨before, rfl⟩
      | cons d rest ih =>
        intro before wellFormed distinct
        have fresh : d.id ∉ before.ids := by
          intro hd
          exact (List.nodup_append.1 distinct).2.2 d.id hd d.id (by simp) rfl
        obtain ⟨next, registered⟩ := register_ok (wellFormed d List.mem_cons_self) fresh
        have hids : next.ids = before.ids ++ [d.id] := by
          simp [ids, classes, declared_register registered]
        obtain ⟨r, hr⟩ := ih next (fun d hd => wellFormed d (List.mem_cons_of_mem _ hd))
          (by simpa [hids] using distinct)
        refine ⟨r, ?_⟩
        rw [List.foldlM_cons, registered]
        exact hr
    exact all decls empty wellFormed distinct

theorem ofDecls_reorders {decls' : List ClassDecl} (accepted : ofDecls decls = .ok r)
    (reordered : decls.Perm decls') : ∃ r', ofDecls decls' = .ok r' ∧ r.Reorders r' := by
  obtain ⟨wellFormed, distinct⟩ := ofDecls_accepts_iff.1 ⟨r, accepted⟩
  have accepted' : ∃ r', ofDecls decls' = .ok r' := by
    refine ofDecls_accepts_iff.2 ⟨?_, ?_⟩
    · intro d hd
      exact wellFormed d (reordered.mem_iff.2 hd)
    · exact ((reordered.map ClassDecl.id).cons ClassPath.root).nodup_iff.1 distinct
  obtain ⟨r', hr'⟩ := accepted'
  refine ⟨r', hr', ?_⟩
  rwa [Reorders, declared_ofDecls accepted, declared_ofDecls hr']

end Registry

/-- A manifest may list its classes in any order: it is accepted all the same, and its registry
resolves, compiles and describes as before, to the same errors where it fails. -/
theorem Manifest.order_irrelevant {m m' : Manifest} {r : Registry} (accepted : m.registry = .ok r)
    (reordered : m.classes.Perm m'.classes) :
    ∃ r', m'.registry = .ok r' ∧
      (∀ reference source, r'.resolve reference source = r.resolve reference source) ∧
      (∀ cls, r'.ancestorChain cls = r.ancestorChain cls) ∧
      (∀ cls ancestor, r'.isA cls ancestor = r.isA cls ancestor) ∧
      (∀ cls, SchemaCache.empty.compile r' cls = SchemaCache.empty.compile r cls) ∧
      ∀ strict cls, ((Schema.ofRegistry r' strict).jsonSchema cls).2 =
        ((Schema.ofRegistry r strict).jsonSchema cls).2 := by
  have hdecls : m.declarations.Perm m'.declarations := reordered.map _
  obtain ⟨r', hr', h⟩ := Registry.ofDecls_reorders accepted hdecls
  refine ⟨r', hr', ?_, ?_, ?_, ?_, ?_⟩
  · exact fun reference source => (h.resolve reference source).symm
  · exact fun cls => (h.ancestorChain cls).symm
  · exact fun cls ancestor => (h.isA cls ancestor).symm
  · exact fun cls => (h.compile .empty cls).symm
  · intro strict cls
    have same : (Schema.ofRegistry r strict).Reorders (Schema.ofRegistry r' strict) := ⟨h, rfl⟩
    exact (same.jsonSchema cls).symm

namespace ShopExample

def base : String × ClassEntry := ("Base", ⟨none, [.field "note" "string"]⟩)

/-- It refers to a class of its own namespace, which no path spells out. -/
def order : String × ClassEntry := ("Shop.Order", ⟨some "\\Base", [.field "items" "Item[]"]⟩)

def item : String × ClassEntry := ("Shop.Item", ⟨none, [.field "parent" "Order"]⟩)

end ShopExample

open ShopExample in
theorem Manifest.order_irrelevant_shop :
    ∃ r r', Manifest.registry ⟨[base, item, order]⟩ = .ok r ∧
      Manifest.registry ⟨[order, item, base]⟩ = .ok r' ∧
      r'.resolve "Item" ⟨"Shop.Order"⟩ = r.resolve "Item" ⟨"Shop.Order"⟩ ∧
      ∀ cls, SchemaCache.empty.compile r' cls = SchemaCache.empty.compile r cls := by
  have accepted : ∃ r, Manifest.registry ⟨[base, item, order]⟩ = .ok r :=
    Registry.ofDecls_accepts_iff.2 (by decide)
  obtain ⟨r, hr⟩ := accepted
  have reordered : [base, item, order].Perm [order, item, base] := by decide
  obtain ⟨r', hr', resolves, -, -, compiles, -⟩ := Manifest.order_irrelevant hr reordered
  exact ⟨r, r', hr, hr', resolves _ _, compiles⟩

end LazyBinding
