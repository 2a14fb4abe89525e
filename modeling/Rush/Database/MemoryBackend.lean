import Rush.Database.BackendSpec
import Rush.Database.Memory
import Mathlib.Data.Set.Insert

/-!
# The memory backend refines its specification

Every prefix has a map of its own, and the raw keys in it start with the prefix
and the separator.  So the entries of the map are the only ones that filtering
and cutting meet, and they give the private map back.
-/

namespace Rush
namespace Database

open Foundation

/-- The collections of one name in the memory manager. -/
def MemoryManager.collections (overflowChecks : Bool) (name : Str) :
    Backend MemoryManager Str CollectionQuery CollectionAnswer where
  create manager p :=
    let (result, manager) := manager.createCollection name p
    (result.map fun _ => (), manager)
  get manager p key := MemoryStore.Collection.get manager ⟨name, p⟩ key
  put manager p key data :=
    MemoryStore.Collection.put manager ⟨name, p⟩ key data
  del manager p key := MemoryStore.Collection.del manager ⟨name, p⟩ key
  purge manager p := MemoryStore.Collection.purge manager ⟨name, p⟩
  read manager p :=
    Collection.answer overflowChecks
      (MemoryStore.Collection.iter manager ⟨name, p⟩)

/-- The states of one name in the memory manager. -/
def MemoryManager.states (name : Str) :
    Backend MemoryManager Unit Empty Empty where
  create manager p :=
    let (result, manager) := manager.createState name p
    (result.map fun _ => (), manager)
  get manager p _ := MemoryStore.State.get manager ⟨name, p⟩
  put manager p _ data := MemoryStore.State.put manager ⟨name, p⟩ data
  del manager p _ := MemoryStore.State.del manager ⟨name, p⟩
  purge manager p := MemoryStore.State.purge manager ⟨name, p⟩
  read _ _ query := query

namespace MemoryManager

variable {manager : MemoryManager} {name : Str}

theorem prefixFree_singleton (p : Str) : PrefixFree {p} := by
  intro q hq r hr _
  rw [Set.mem_singleton_iff.mp hq, Set.mem_singleton_iff.mp hr]

/-- Every map of the name holds the private map of its prefix. -/
def HoldsCollections (name : Str) (manager : MemoryManager) (_ : List Str)
    (ns : Namespaces) : Prop :=
  ∀ p, Represents {p} (manager.content ⟨name, p⟩) ns

/-- Replace the content of one prefix on both sides. -/
theorem HoldsCollections.setContent {ps : List Str} {ns : Namespaces}
    (h : HoldsCollections name manager ps ns) {p : Str} {family table : Table}
    (hrep : Represents {p} family (Function.update ns p table)) :
    HoldsCollections name (manager.setContent ⟨name, p⟩ family) ps
      (Function.update ns p table) := by
  intro q
  rw [content_setContent]
  by_cases hqp : q = p
  · subst hqp
    simpa using hrep
  · have hne : (⟨name, q⟩ : MemoryStore) ≠ ⟨name, p⟩ := by
      intro heq
      exact hqp (MemoryStore.mk.inj heq).2
    rw [if_neg hne]
    refine (h q).congr ?_
    intro r hr
    rw [Set.mem_singleton_iff.mp hr, Function.update_of_ne hqp]

theorem mem_keysToRemove_iff {store : MemoryStore} {table : Table}
    {raw : Str} :
    raw ∈ store.keysToRemove table ↔ raw ∈ table ∧ store.keyPrefix <+: raw := by
  unfold MemoryStore.keysToRemove
  rw [List.mem_filter, List.isPrefixOf_iff_prefix, List.mem_map]
  refine and_congr_left fun _ => ?_
  constructor
  · intro h
    obtain ⟨entry, hentry, rfl⟩ := h
    exact mem_iff_exists_getElem?.mpr
      ⟨entry.2, Std.ExtTreeMap.mem_toList_iff_getElem?_eq_some.mp hentry⟩
  · intro h
    obtain ⟨data, hdata⟩ := mem_iff_exists_getElem?.mp h
    exact ⟨_, Std.ExtTreeMap.mem_toList_iff_getElem?_eq_some.mpr hdata, rfl⟩

/-- A purge empties a map all of whose raw keys start with the prefix. -/
theorem foldl_keysToRemove {store : MemoryStore} {table : Table}
    (h : ∀ raw ∈ table, store.keyPrefix <+: raw) :
    (store.keysToRemove table).foldl Std.ExtTreeMap.erase table = ∅ := by
  apply Std.ExtTreeMap.ext_getElem?
  intro raw
  rw [getElem?_foldl_erase]
  by_cases hraw : raw ∈ table
  · rw [if_pos (mem_keysToRemove_iff.mpr ⟨hraw, h raw hraw⟩)]
    simp
  · rw [Std.ExtTreeMap.getElem?_eq_none hraw]
    simp

theorem mapM_eq_some_of_map {β γ : Type} {f : β → Option γ} {xs : List β}
    {ys : List γ} (h : xs.map f = ys.map some) : xs.mapM f = some ys := by
  induction xs generalizing ys with
  | nil =>
      have hnil : ys = [] := by simpa using h.symm
      rw [hnil]
      rfl
  | cons x xs ih =>
      cases ys with
      | nil => simp at h
      | cons y ys =>
          simp only [List.map_cons, List.cons.injEq] at h
          simp [h.1, ih h.2]

/-- The items of the lazy iterator are those that are filtered and cut. -/
theorem filterMap_item_eq_map (store : RocksDbStore)
    (entries : List (Str × Bytes)) :
    entries.filterMap (RocksDbStore.Collection.item store) =
      (entries.filter fun entry => store.keyPrefix.isPrefixOf entry.1).map
        (MemoryStore.Collection.cutKey ⟨store.name, store.keyPrefix⟩) := by
  rw [← List.filterMap_eq_map, List.filterMap_filter]
  refine List.filterMap_congr fun entry _ => ?_
  rfl

/-- The collected iterator is the private map in order, and no cut panics. -/
theorem iter_eq {ns : Namespaces} {p : Str}
    (h : Represents {p} (manager.content ⟨name, p⟩) ns) (reverse : Bool) :
    MemoryStore.Collection.iter manager ⟨name, p⟩ reverse =
      .ok ((ns p).entries reverse) := by
  have hitems : ((manager.content ⟨name, p⟩).entries reverse).filterMap
      (RocksDbStore.Collection.item ⟨name, p⟩) = (ns p).iter reverse :=
    h.filterMap_item_entries (prefixFree_singleton p) (Set.mem_singleton p)
      reverse
  rw [filterMap_item_eq_map] at hitems
  unfold MemoryStore.Collection.iter
  simp only [mapM_eq_some_of_map hitems]

theorem createStore_fst (manager : MemoryManager) (name p : Str) :
    (manager.createStore name p).1 = .ok ⟨name, p⟩ := by
  unfold createStore
  cases manager.data (name, p) <;> rfl

theorem get_eq {ns : Namespaces} {p : Str}
    (h : Represents {p} (manager.content ⟨name, p⟩) ns) (key : Str) :
    MemoryStore.Collection.get manager ⟨name, p⟩ key = (ns p).get key := by
  unfold MemoryStore.Collection.get MemoryStore.rawKey Table.get
  rw [h.lookup p (Set.mem_singleton p) key]

/-- **Collections in memory are private ordered maps.** -/
theorem collections_refines (overflowChecks : Bool) (name : Str) :
    Backend.Refines (MemoryManager.collections overflowChecks name)
      (Namespaces.collections overflowChecks) (HoldsCollections name) where
  create := by
    intro manager ps ns p h
    refine ⟨?_, rfl, ?_⟩
    · show (manager.createStore name p).1.map (fun _ => ()) = .ok ()
      rw [createStore_fst]
      rfl
    · intro q
      show Represents {q} ((manager.createStore name p).2.content ⟨name, q⟩) ns
      rw [content_createStore]
      exact h q
  get := by
    intro manager ps ns p key h _
    exact get_eq (h p) key
  put := by
    intro manager ps ns p key data h _
    refine ⟨rfl, h.setContent ?_⟩
    exact (h p).insert (prefixFree_singleton p) (Set.mem_singleton p) data
  del := by
    intro manager ps ns p key h _
    have hlookup := (h p).lookup p (Set.mem_singleton p) key
    show (∀ data, (ns p).get key = .ok data →
        ((⟨name, p⟩ : MemoryStore).delRaw manager (p ++ '.' :: key)).1 = .ok ()) ∧
      HoldsCollections name
        ((⟨name, p⟩ : MemoryStore).delRaw manager (p ++ '.' :: key)).2 ps
        (Function.update ns p ((ns p).erase key))
    unfold MemoryStore.delRaw Table.get
    rw [hlookup]
    cases hkey : (ns p)[key]? with
    -- `EntryNotFound`, where the specification removes nothing
    | none =>
        refine ⟨by simp, ?_⟩
        simpa [erase_eq_self hkey] using h
    | some data =>
        refine ⟨fun _ _ => rfl, h.setContent ?_⟩
        exact (h p).erase (prefixFree_singleton p) (Set.mem_singleton p)
  purge := by
    intro manager ps ns p h _
    have hown : ∀ raw ∈ manager.content ⟨name, p⟩, p <+: raw := by
      intro raw hraw
      obtain ⟨q, hq, k, rfl⟩ := (h p).owned raw hraw
      rw [Set.mem_singleton_iff.mp hq]
      exact List.prefix_append p ('.' :: k)
    -- every key of the map begins with the prefix, so nothing stays
    refine ⟨rfl, h.setContent ?_⟩
    rw [foldl_keysToRemove hown]
    exact (Represents.empty {p}).congr (by simp [Namespaces.empty])
  read := by
    intro manager ps ns p query h _
    show Collection.answer overflowChecks _ query =
      Collection.answer overflowChecks _ query
    rw [show MemoryStore.Collection.iter manager ⟨name, p⟩ =
      fun reverse => .ok ((ns p).entries reverse) from funext (iter_eq (h p))]

/-- Every map of the name holds at most the value of its state. -/
def HoldsStates (name : Str) (manager : MemoryManager) (_ : List Str)
    (slots : Slots) : Prop :=
  ∀ p raw, (manager.content ⟨name, p⟩)[raw]? =
    if raw = p then slots p else none

theorem HoldsStates.setContent {ps : List Str} {slots : Slots}
    (h : HoldsStates name manager ps slots) {p : Str} {table : Table}
    {slot : Option Bytes}
    (htable : ∀ raw : Str, table[raw]? = if raw = p then slot else none) :
    HoldsStates name (manager.setContent ⟨name, p⟩ table) ps
      (Function.update slots p slot) := by
  intro q raw
  rw [content_setContent]
  by_cases hqp : q = p
  · subst hqp
    simpa using htable raw
  · have hne : (⟨name, q⟩ : MemoryStore) ≠ ⟨name, p⟩ := by
      intro heq
      exact hqp (MemoryStore.mk.inj heq).2
    rw [if_neg hne, Function.update_of_ne hqp]
    exact h q raw

/-- **States in memory are single values.** -/
theorem states_refines (name : Str) :
    Backend.Refines (MemoryManager.states name) Slots.states
      (HoldsStates name) where
  create := by
    intro manager ps slots p h
    refine ⟨?_, rfl, ?_⟩
    · show (manager.createStore name p).1.map (fun _ => ()) = .ok ()
      rw [createStore_fst]
      rfl
    · intro q raw
      show ((manager.createStore name p).2.content ⟨name, q⟩)[raw]? = _
      rw [content_createStore]
      exact h q raw
  get := by
    intro manager ps slots p _ h _
    show (manager.content ⟨name, p⟩).get p = _
    unfold Table.get
    rw [h p p, if_pos rfl]
    rfl
  put := by
    intro manager ps slots p _ data h _
    refine ⟨rfl, h.setContent ?_⟩
    intro raw
    rw [getElem?_insert_eq, h p raw]
    by_cases hraw : raw = p <;> simp [hraw]
  del := by
    intro manager ps slots p key h _
    have hown := h p p
    rw [if_pos rfl] at hown
    show (∀ data, Slots.states.get slots p key = .ok data →
        ((⟨name, p⟩ : MemoryStore).delRaw manager p).1 = .ok ()) ∧
      HoldsStates name ((⟨name, p⟩ : MemoryStore).delRaw manager p).2 ps
        (Function.update slots p none)
    unfold MemoryStore.delRaw Slots.states
    rw [hown]
    cases hslot : slots p with
    | none =>
        refine ⟨by simp [hslot], ?_⟩
        simpa [← hslot] using h
    | some data =>
        refine ⟨fun _ _ => rfl, h.setContent ?_⟩
        intro raw
        rw [getElem?_erase_eq, h p raw]
        by_cases hraw : raw = p <;> simp [hraw]
  purge := by
    intro manager ps slots p h _
    have hown : ∀ raw ∈ manager.content ⟨name, p⟩, p <+: raw := by
      intro raw hraw
      by_cases heq : raw = p
      · exact heq ▸ List.prefix_refl p
      · rw [Std.ExtTreeMap.mem_iff_isSome_getElem?, h p raw, if_neg heq] at hraw
        simp at hraw
    refine ⟨rfl, h.setContent ?_⟩
    rw [foldl_keysToRemove hown]
    simp
  read := by
    intro manager ps slots p query
    exact query.elim

end MemoryManager

end Database
end Rush
