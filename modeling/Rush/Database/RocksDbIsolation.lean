import Rush.Database.RocksDb
import Rush.Foundation.KeySpace

/-!
# Which collections of a column family are isolated from each other

The abstract view of a family is one private ordered map for each prefix.  The
reads of a collection agree with its private map, whatever is written through
the other collections, exactly when no prefix of the family is the beginning of
another: the iterator compares raw keys with the bare prefix, without the
separator, and the raw keys of `a.b` and of `a` with the key `b.c` coincide.
-/

namespace Rush
namespace Database

open Foundation

/-- One write through a collection of a family. -/
inductive CollectionWrite
  | put (keyPrefix key : Str) (data : Bytes)
  | del (keyPrefix key : Str)

namespace CollectionWrite

def keyPrefix : CollectionWrite → Str
  | put p _ _ => p
  | del p _ => p

/-- The write on the database, through the handle of its prefix. -/
def perform (name : Str) (db : RocksDb) : CollectionWrite → RocksDb
  | put p key data => (RocksDbStore.Collection.put db none ⟨name, p⟩ key data).2
  | del p key => (RocksDbStore.Collection.del db none ⟨name, p⟩ key).2

end CollectionWrite

/-- The specification: an ordered map private to each prefix. -/
abbrev Namespaces := Str → Table

namespace Namespaces

/-- The write on the private map of its prefix. -/
def perform (ns : Namespaces) : CollectionWrite → Namespaces
  | .put p key data => Function.update ns p ((ns p).insert key data)
  | .del p key => Function.update ns p ((ns p).erase key)

def empty : Namespaces := fun _ => ∅

end Namespaces

namespace RocksDb

/-- The database with one family emptied, all its collections unwritten. -/
def withEmptyFamily (db : RocksDb) (name : Str) : RocksDb :=
  ⟨Function.update db.families name (some ∅)⟩

theorem families_update (db : RocksDb) (name : Str) (f : Table → Table) :
    (db.update name f).families name = (db.families name).map f := by
  simp [update]

end RocksDb

/-- Every read of a collection answers as the table does. -/
structure ReadsLike (db : RocksDb) (store : RocksDbStore) (table : Table) :
    Prop where
  get : ∀ key, RocksDbStore.Collection.get db none store key = table.get key
  iter : ∀ reverse,
    RocksDbStore.Collection.iter db store reverse = table.iter reverse
  last : Collection.last (RocksDbStore.Collection.iter db store) =
    .ok table.last?
  getByRange : ∀ overflowChecks start quantity,
    Collection.getByRange overflowChecks
        (RocksDbStore.Collection.iter db store) start quantity =
      Collection.getByRange overflowChecks table.iter start quantity

/-- `last` and `get_by_range` only use the iterators. -/
theorem ReadsLike.of_get_iter {db : RocksDb} {store : RocksDbStore}
    {table : Table}
    (hget : ∀ key,
      RocksDbStore.Collection.get db none store key = table.get key)
    (hiter : ∀ reverse,
      RocksDbStore.Collection.iter db store reverse = table.iter reverse) :
    ReadsLike db store table := by
  have hiter' : RocksDbStore.Collection.iter db store = table.iter :=
    funext hiter
  refine ⟨hget, hiter, ?_, fun _ _ _ => by rw [hiter']⟩
  rw [hiter', Table.collectionLast_iter]

/-- A family holds exactly the private maps of the prefixes in `P`. -/
structure Represents (P : Set Str) (family : Table) (ns : Namespaces) :
    Prop where
  lookup : ∀ p ∈ P, ∀ k, family[p ++ '.' :: k]? = (ns p)[k]?
  owned : ∀ raw ∈ family, ∃ p ∈ P, ∃ k, raw = p ++ '.' :: k

namespace Represents

variable {P : Set Str} {family : Table} {ns : Namespaces}

theorem empty (P : Set Str) : Represents P ∅ Namespaces.empty where
  lookup := by simp [Namespaces.empty]
  owned := by simp

/-- Only the private maps of `P` matter. -/
theorem congr {ns' : Namespaces} (h : Represents P family ns)
    (heq : ∀ p ∈ P, ns' p = ns p) : Represents P family ns' where
  lookup := by
    intro p hp k
    rw [heq p hp]
    exact h.lookup p hp k
  owned := h.owned

/-- A raw key of `P` names one prefix and one key. -/
theorem raw_inj (hfree : PrefixFree P) {p q k l : Str} (hp : p ∈ P)
    (hq : q ∈ P) (h : p ++ '.' :: k = q ++ '.' :: l) : p = q ∧ k = l := by
  have hpq : p = q :=
    hfree.eq_of_prefix_compose hp hq (h ▸ List.prefix_append p ('.' :: k))
  subst hpq
  exact ⟨rfl, compose_right_inj.mp h⟩

theorem insert (hfree : PrefixFree P) (h : Represents P family ns) {q l : Str}
    (hq : q ∈ P) (data : Bytes) :
    Represents P (family.insert (q ++ '.' :: l) data)
      (Function.update ns q ((ns q).insert l data)) where
  lookup := by
    intro p hp k
    rw [Std.ExtTreeMap.getElem?_insert]
    by_cases hpq : p = q
    · subst hpq
      rw [Function.update_self, Std.ExtTreeMap.getElem?_insert,
        compare_append_left, h.lookup p hp k, List.compare_cons_cons,
        Std.ReflOrd.compare_self]
      rfl
    · rw [Function.update_of_ne hpq, if_neg, h.lookup p hp k]
      intro heq
      exact hpq (raw_inj hfree hq hp (Std.LawfulEqOrd.eq_of_compare heq)).1.symm
  owned := by
    intro raw hraw
    rcases Std.ExtTreeMap.mem_insert.mp hraw with heq | hold
    · exact ⟨q, hq, l, (Std.LawfulEqOrd.eq_of_compare heq).symm⟩
    · exact h.owned raw hold

theorem erase (hfree : PrefixFree P) (h : Represents P family ns) {q l : Str}
    (hq : q ∈ P) :
    Represents P (family.erase (q ++ '.' :: l))
      (Function.update ns q ((ns q).erase l)) where
  lookup := by
    intro p hp k
    rw [Std.ExtTreeMap.getElem?_erase]
    by_cases hpq : p = q
    · subst hpq
      rw [Function.update_self, Std.ExtTreeMap.getElem?_erase,
        compare_append_left, h.lookup p hp k, List.compare_cons_cons,
        Std.ReflOrd.compare_self]
      rfl
    · rw [Function.update_of_ne hpq, if_neg, h.lookup p hp k]
      intro heq
      exact hpq (raw_inj hfree hq hp (Std.LawfulEqOrd.eq_of_compare heq)).1.symm
  owned := by
    intro raw hraw
    exact h.owned raw (Std.ExtTreeMap.mem_erase.mp hraw).2

/-- One write keeps the representation. -/
theorem perform (hfree : PrefixFree P) {name : Str} {db : RocksDb}
    (hdb : db.families name = some family) (h : Represents P family ns)
    {w : CollectionWrite} (hw : w.keyPrefix ∈ P) :
    ∃ family', (w.perform name db).families name = some family' ∧
      Represents P family' (ns.perform w) := by
  cases w with
  | put q l data =>
      refine ⟨family.insert (q ++ '.' :: l) data, ?_, h.insert hfree hw data⟩
      simp [CollectionWrite.perform, RocksDbStore.Collection.put,
        RocksDbStore.writeRaw, hdb, RocksDb.families_update,
        RocksDbStore.rawKey]
  | del q l =>
      refine ⟨family.erase (q ++ '.' :: l), ?_, h.erase hfree hw⟩
      simp [CollectionWrite.perform, RocksDbStore.Collection.del,
        RocksDbStore.writeRaw, hdb, RocksDb.families_update,
        RocksDbStore.rawKey]

/-- Any sequence of writes keeps the representation. -/
theorem foldl_perform (hfree : PrefixFree P) {name : Str}
    (ws : List CollectionWrite) (hws : ∀ w ∈ ws, w.keyPrefix ∈ P) :
    ∀ {db : RocksDb} {family : Table} {ns : Namespaces},
      db.families name = some family → Represents P family ns →
      ∃ family', (ws.foldl (CollectionWrite.perform name) db).families name =
          some family' ∧
        Represents P family' (ws.foldl Namespaces.perform ns) := by
  induction ws with
  | nil => exact fun hdb h => ⟨_, hdb, h⟩
  | cons w ws ih =>
      intro db family ns hdb h
      obtain ⟨family', hdb', h'⟩ :=
        h.perform hfree hdb (hws w List.mem_cons_self)
      exact ih (fun w' hw' => hws w' (List.mem_cons_of_mem w hw')) hdb' h'

/-- What the iterator of `p` makes of a raw key of the family: its own entries
are cut back to their keys, all others are skipped, and nothing panics. -/
theorem item_eq (hfree : PrefixFree P) {name p q k : Str} (hp : p ∈ P)
    (hq : q ∈ P) (data : Bytes) :
    RocksDbStore.Collection.item ⟨name, p⟩ (q ++ '.' :: k, data) =
      if p = q then some (some (k, data)) else none := by
  unfold RocksDbStore.Collection.item
  by_cases hpq : p = q
  · subst hpq
    have hcut : sliceFrom (p ++ '.' :: k) (utf8Len p + 1) = some k := by
      rw [sliceFrom_append]
      simp [sliceFrom, show Char.utf8Size '.' = 1 from rfl]
    simp [hcut]
  · have hskip : ¬ p <+: q ++ '.' :: k :=
      fun h => hpq (hfree.eq_of_prefix_compose hp hq h)
    simp [hskip, hpq]

/-- An entry of the family, if it is one of `p`, under its own key. -/
def ownEntry (p : Str) (entry : Str × Bytes) : Option (Str × Bytes) :=
  (RocksDbStore.Collection.item ⟨[], p⟩ entry).join

theorem ownEntry_eq (hfree : PrefixFree P) {p q : Str} (hp : p ∈ P) (hq : q ∈ P)
    (k : Str) (data : Bytes) :
    ownEntry p (q ++ '.' :: k, data) = if p = q then some (k, data) else none := by
  rw [ownEntry, item_eq hfree hp hq]
  split <;> rfl

/-- Every entry belongs to a prefix of `P`. -/
theorem entry_eq (h : Represents P family ns) {entry : Str × Bytes}
    (hentry : entry ∈ family.toList) :
    ∃ q ∈ P, ∃ k, entry = (q ++ '.' :: k, entry.2) := by
  have hmem : entry.1 ∈ family := mem_iff_exists_getElem?.mpr
    ⟨entry.2, Std.ExtTreeMap.mem_toList_iff_getElem?_eq_some.mp hentry⟩
  obtain ⟨q, hq, k, hk⟩ := h.owned entry.1 hmem
  exact ⟨q, hq, k, Prod.ext hk rfl⟩

/-- The own entries of `p` come in the order of their keys. -/
theorem ascending_ownEntry (hfree : PrefixFree P) (h : Represents P family ns)
    {p : Str} (hp : p ∈ P) :
    Ascending compare (family.toList.filterMap (ownEntry p)) := by
  refine List.Pairwise.filterMap (ownEntry p) ?_
    (List.Pairwise.and_mem.mp (ascending_toList family))
  intro a b hab a' ha' b' hb'
  obtain ⟨ha, hb, hlt⟩ := hab
  obtain ⟨q, hq, k, hak⟩ := h.entry_eq ha
  obtain ⟨r, hr, l, hbl⟩ := h.entry_eq hb
  rw [hak, ownEntry_eq hfree hp hq] at ha'
  rw [hbl, ownEntry_eq hfree hp hr] at hb'
  by_cases hpq : p = q
  · by_cases hpr : p = r
    · -- below the same prefix the raw keys compare as the keys do
      subst hpq
      subst hpr
      simp only [if_true, Option.some.injEq] at ha' hb'
      subst ha' hb'
      rw [hak, hbl, compare_append_left, List.compare_cons_cons,
        Std.ReflOrd.compare_self] at hlt
      exact hlt
    · simp [hpr] at hb'
  · simp [hpq] at ha'

/-- The own entries of `p` are those of its private map. -/
theorem mem_ownEntry_iff (hfree : PrefixFree P) (h : Represents P family ns)
    {p : Str} (hp : p ∈ P) (k : Str) (data : Bytes) :
    (k, data) ∈ family.toList.filterMap (ownEntry p) ↔ (ns p)[k]? = some data := by
  rw [← h.lookup p hp k, List.mem_filterMap]
  constructor
  · intro hmem
    obtain ⟨entry, hentry, hsome⟩ := hmem
    obtain ⟨q, hq, l, hl⟩ := h.entry_eq hentry
    rw [hl, ownEntry_eq hfree hp hq] at hsome
    by_cases hpq : p = q
    · subst hpq
      simp only [if_true, Option.some.injEq, Prod.mk.injEq] at hsome
      obtain ⟨rfl, rfl⟩ := hsome
      rw [hl] at hentry
      exact Std.ExtTreeMap.mem_toList_iff_getElem?_eq_some.mp hentry
    · simp [hpq] at hsome
  · intro hget
    refine ⟨(p ++ '.' :: k, data),
      Std.ExtTreeMap.mem_toList_iff_getElem?_eq_some.mpr hget, ?_⟩
    rw [ownEntry_eq hfree hp hp, if_pos rfl]

/-- The items of the forward iterator of `p` are its private map in order. -/
theorem filterMap_item (hfree : PrefixFree P) (h : Represents P family ns)
    {name p : Str} (hp : p ∈ P) :
    family.toList.filterMap (RocksDbStore.Collection.item ⟨name, p⟩) =
      (ns p).toList.map some := by
  rw [toList_eq_of_ascending (h.ascending_ownEntry hfree hp)
    (h.mem_ownEntry_iff hfree hp), List.map_filterMap]
  refine List.filterMap_congr fun entry hentry => ?_
  obtain ⟨q, hq, k, hk⟩ := h.entry_eq hentry
  rw [hk, ownEntry_eq hfree hp hq, item_eq hfree hp hq]
  split <;> rfl

/-- The items of both iterators of `p`. -/
theorem filterMap_item_entries (hfree : PrefixFree P)
    (h : Represents P family ns) {name p : Str} (hp : p ∈ P) (reverse : Bool) :
    (family.entries reverse).filterMap
        (RocksDbStore.Collection.item ⟨name, p⟩) = (ns p).iter reverse := by
  unfold Table.iter Table.entries
  cases reverse with
  | false => simpa using h.filterMap_item hfree hp
  | true =>
      simp only [if_true, List.filterMap_reverse, List.map_reverse]
      rw [h.filterMap_item hfree hp]

/-- A represented family reads as its private maps. -/
theorem readsLike (hfree : PrefixFree P) {name : Str} {db : RocksDb}
    (hdb : db.families name = some family) (h : Represents P family ns)
    {p : Str} (hp : p ∈ P) : ReadsLike db ⟨name, p⟩ (ns p) := by
  refine ReadsLike.of_get_iter (fun key => ?_) (fun reverse => ?_)
  · simp [RocksDbStore.Collection.get, RocksDbStore.getRaw, hdb, Table.get,
      RocksDbStore.rawKey, h.lookup p hp key]
  · simp only [RocksDbStore.Collection.iter, hdb]
    exact h.filterMap_item_entries hfree hp reverse

end Represents

/-- **Read isolation.**  Over all interleaved writes through the collections of
`P`, every read of every collection answers as its private ordered map does, if
and only if no prefix in `P` is the beginning of another one. -/
theorem reads_isolated_iff_prefixFree (db : RocksDb) (name : Str)
    (P : Set Str) :
    (∀ ws : List CollectionWrite, (∀ w ∈ ws, w.keyPrefix ∈ P) → ∀ p ∈ P,
      ReadsLike
        (ws.foldl (CollectionWrite.perform name) (db.withEmptyFamily name))
        ⟨name, p⟩ (ws.foldl Namespaces.perform Namespaces.empty p)) ↔
      PrefixFree P := by
  constructor
  · intro hall p hp q hq hpq
    by_contra hne
    -- one entry written through `q` already shows up in the iterator of `p`
    have hq' : ∀ w ∈ [CollectionWrite.put q [] []], w.keyPrefix ∈ P := by
      intro w hw
      rw [List.mem_singleton.mp hw]
      exact hq
    have hiter := (hall [.put q [] []] hq' p hp).iter false
    have hown : (Namespaces.empty.perform (.put q [] []) p).toList = [] := by
      simp [Namespaces.perform, Function.update_of_ne hne, Namespaces.empty,
        Std.ExtTreeMap.toList_eq_nil_iff]
    have hp' : p <+: q ++ ['.'] := hpq.trans (List.prefix_append q ['.'])
    simp [RocksDbStore.Collection.iter, CollectionWrite.perform,
      RocksDbStore.Collection.put, RocksDbStore.writeRaw,
      RocksDb.withEmptyFamily, RocksDb.update, RocksDbStore.rawKey,
      Table.iter, Table.entries, RocksDbStore.Collection.item, hp',
      hown] at hiter
  · intro hfree ws hws p hp
    obtain ⟨family, hdb, hrep⟩ :=
      Represents.foldl_perform hfree ws hws
        (show (db.withEmptyFamily name).families name = some ∅ by
          simp [RocksDb.withEmptyFamily])
        (Represents.empty P)
    exact hrep.readsLike hfree hdb hp

/-- The actor keys `user1` and `user10` in one family: the only entry, written
through `user10`, is iterated by `user1` under the key `.k`. -/
theorem user1_reads_entry_of_user10 :
    let ws := [CollectionWrite.put "user10".toList "k".toList [7]]
    let db := ws.foldl (CollectionWrite.perform "events".toList)
      (RocksDb.withEmptyFamily ⟨fun _ => none⟩ "events".toList)
    RocksDbStore.Collection.iter db ⟨"events".toList, "user1".toList⟩ false =
        [some (".k".toList, [7])] ∧
      ¬ ReadsLike db ⟨"events".toList, "user1".toList⟩
        (ws.foldl Namespaces.perform Namespaces.empty "user1".toList) := by
  intro ws db
  have hitems : RocksDbStore.Collection.iter db
      ⟨"events".toList, "user1".toList⟩ false = [some (".k".toList, [7])] := by
    decide
  refine ⟨hitems, fun hreads => ?_⟩
  have hown : (ws.foldl Namespaces.perform Namespaces.empty
      "user1".toList).iter false = [] := by
    decide
  have hiter := hreads.iter false
  rw [hitems, hown] at hiter
  contradiction

end Database
end Rush
