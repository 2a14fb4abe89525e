import Rush.Database.MemoryBackend
import Rush.Database.RocksDbPurge

/-!
# The RocksDB backend as a table of private maps

All handles of a column family share one key space.  A family therefore refines
the specification of a table for the handles of a prefix-free set only, and this
is the best one can have: RocksDB answers as the memory backend does, over all
sequences of calls through the handles of a set of prefixes, if and only if no
prefix of the set is the beginning of another one.
-/

namespace Rush
namespace Database

open Foundation

/-- An engine that meets no error during a purge. -/
def PurgeEngine.sound : PurgeEngine := ⟨none, fun _ => none⟩

/-- The provided methods of the trait over a lazy iterator.  Only `iter` is read
to its end. -/
def Collection.lazyAnswer (overflowChecks : Bool) (iter : Bool → Items) :
    CollectionQuery → CollectionAnswer
  | .iter reverse =>
      .items (match (iter reverse).mapM id with
        | some items => .ok items
        | none => .error .panic)
  | .last => .entry (Collection.last iter)
  | .getByRange start quantity =>
      .values (Collection.getByRange overflowChecks iter start quantity)

/-- Reading the items ahead makes no difference when none of them panics. -/
theorem Collection.lazyAnswer_iter (overflowChecks : Bool) (table : Table)
    (query : CollectionQuery) :
    Collection.lazyAnswer overflowChecks table.iter query =
      Collection.answer overflowChecks
        (fun reverse => .ok (table.entries reverse)) query := by
  cases query with
  | iter reverse =>
      have hitems : (table.iter reverse).mapM id = some (table.entries reverse) :=
        MemoryManager.mapM_eq_some_of_map (by simp [Table.iter])
      simp only [lazyAnswer, answer, hitems]
  | last => rfl
  | getByRange start quantity =>
      unfold lazyAnswer answer Collection.getByRange
      cases start with
      | some key => rfl
      | none =>
          by_cases hquantity : 0 ≤ quantity
          · have hforward : decide (quantity < 0) = false := by simpa using hquantity
            simp [hquantity, hforward, Except.bind, Table.iter]
          · have hbackward : decide (quantity < 0) = true := by simpa using hquantity
            simp [hquantity, hbackward, Except.bind, Table.iter]

namespace RocksDb

/-- The collections of one column family, over an engine without errors. -/
def collections (overflowChecks : Bool) (name : Str) :
    Backend RocksDb Str CollectionQuery CollectionAnswer where
  create db p :=
    let (result, db) := db.createStore none name p
    (result.map fun _ => (), db)
  get db p key := RocksDbStore.Collection.get db none ⟨name, p⟩ key
  put db p key data := RocksDbStore.Collection.put db none ⟨name, p⟩ key data
  del db p key := RocksDbStore.Collection.del db none ⟨name, p⟩ key
  purge db p := RocksDbStore.Collection.purge db .sound ⟨name, p⟩
  read db p :=
    Collection.lazyAnswer overflowChecks
      (RocksDbStore.Collection.iter db ⟨name, p⟩)

/-- The states of one column family. -/
def states (name : Str) : Backend RocksDb Unit Empty Empty where
  create db p :=
    let (result, db) := db.createStore none name p
    (result.map fun _ => (), db)
  get db p _ := RocksDbStore.State.get db none ⟨name, p⟩
  put db p _ data := RocksDbStore.State.put db none ⟨name, p⟩ data
  del db p _ := RocksDbStore.State.del db none ⟨name, p⟩
  purge db p := RocksDbStore.State.purge db .sound ⟨name, p⟩
  read _ _ query := query

/-- The family of the name has no entry, or does not exist. -/
def Unwritten (db : RocksDb) (name : Str) : Prop :=
  ∀ family, db.families name = some family → family = ∅

/-- A purge that meets no error takes every raw key with the prefix. -/
theorem purgeRaw_sound {db : RocksDb} {name : Str} {family : Table} (p : Str)
    (hfamily : db.families name = some family) :
    ∃ db' family', RocksDbStore.purgeRaw db .sound ⟨name, p⟩ = (.ok (), db') ∧
      db'.families name = some family' ∧
      ∀ raw : Str,
        family'[raw]? = if p <+: raw then none else family[raw]? := by
  obtain ⟨db', hpurge⟩ := purgeKeys_succeeds ⟨name, p⟩
    (PurgeEngine.sound.scan family) db
  obtain ⟨⟨family', hfamily', hgone⟩, -⟩ := purgeKeys_ok hfamily hpurge
  refine ⟨db', family', ?_, hfamily', fun raw => ?_⟩
  · unfold RocksDbStore.purgeRaw
    simp only [hfamily]
    exact hpurge
  -- what the scan does not yield is not there
  rw [hgone raw]
  by_cases hbegins : p <+: raw
  · rw [if_pos hbegins]
    cases hstored : family[raw]? with
    | none => simp
    | some data =>
        exact if_pos ⟨hbegins, mem_scan_of_getElem? hstored⟩
  · simp [hbegins]

/-- A relation `F` between a family and what it stands for, and handles of the
prefixes of `P` only.  Before the first handle the family may be missing. -/
def Holds {τ : Type} (P : Set Str) (F : Table → τ → Prop) (name : Str)
    (db : RocksDb) (ps : List Str) (t : τ) : Prop :=
  (∀ p ∈ ps, p ∈ P) ∧
    ((∃ family, db.families name = some family ∧ F family t) ∨
      (db.families name = none ∧ ps = [] ∧ F ∅ t))

section Holds

variable {τ : Type} {P : Set Str} {F : Table → τ → Prop} {name p : Str}
  {db : RocksDb} {ps : List Str} {t : τ}

/-- A handle has a family. -/
theorem Holds.family (h : Holds P F name db ps t) (hp : p ∈ ps) :
    p ∈ P ∧ ∃ family, db.families name = some family ∧ F family t := by
  obtain ⟨hps, hfamily | ⟨-, rfl, -⟩⟩ := h
  · exact ⟨hps p hp, hfamily⟩
  · cases hp

theorem Holds.start (hdb : db.Unwritten name) (hempty : F ∅ t) :
    Holds P F name db [] t := by
  refine ⟨by simp, ?_⟩
  cases hfamily : db.families name with
  | none => exact Or.inr ⟨rfl, rfl, hempty⟩
  | some family =>
      refine Or.inl ⟨family, rfl, ?_⟩
      rw [hdb family hfamily]
      exact hempty

/-- A new handle leaves what is held as it is. -/
theorem Holds.create (h : Holds P F name db ps t) (hp : p ∈ P) :
    (db.createStore none name p).1 = .ok ⟨name, p⟩ ∧
      Holds P F name (db.createStore none name p).2 (p :: ps) t := by
  obtain ⟨hps, hheld⟩ := h
  have hps' : ∀ q ∈ p :: ps, q ∈ P := by
    intro q hq
    rcases List.mem_cons.mp hq with rfl | hq
    · exact hp
    · exact hps q hq
  unfold createStore
  rcases hheld with ⟨family, hfamily, ht⟩ | ⟨hnone, -, ht⟩
  · rw [hfamily]
    exact ⟨rfl, hps', Or.inl ⟨family, hfamily, ht⟩⟩
  · rw [hnone]
    refine ⟨rfl, hps', Or.inl ⟨∅, ?_, ht⟩⟩
    exact Function.update_self _ _ _

/-- A write through a handle. -/
theorem Holds.write {t' : τ} {f : Table → Table} (h : Holds P F name db ps t)
    (hp : p ∈ ps) (hf : ∀ family, F family t → F (f family) t') :
    (RocksDbStore.writeRaw db none ⟨name, p⟩ f).1 = .ok () ∧
      Holds P F name (RocksDbStore.writeRaw db none ⟨name, p⟩ f).2 ps t' := by
  obtain ⟨-, family, hfamily, ht⟩ := h.family hp
  unfold RocksDbStore.writeRaw
  simp only [hfamily]
  refine ⟨trivial, h.1, Or.inl ⟨f family, ?_, hf family ht⟩⟩
  rw [families_update, hfamily]
  rfl

/-- A purge through a handle, which takes all raw keys with its prefix. -/
theorem Holds.purge {t' : τ} (h : Holds P F name db ps t) (hp : p ∈ ps)
    (hf : ∀ family family' : Table, F family t →
      (∀ raw : Str, family'[raw]? = if p <+: raw then none else family[raw]?) →
      F family' t') :
    (RocksDbStore.purgeRaw db .sound ⟨name, p⟩).1 = .ok () ∧
      Holds P F name (RocksDbStore.purgeRaw db .sound ⟨name, p⟩).2 ps t' := by
  obtain ⟨-, family, hfamily, ht⟩ := h.family hp
  obtain ⟨db', family', hpurge, hfamily', hgone⟩ := purgeRaw_sound p hfamily
  rw [hpurge]
  exact ⟨rfl, h.1, Or.inl ⟨family', hfamily', hf family family' ht hgone⟩⟩

end Holds

/-- A purge of `p` empties the private map of `p`. -/
theorem represents_of_purge {P : Set Str} (hfree : PrefixFree P)
    {family family' : Table} {ns : Namespaces} {p : Str} (hp : p ∈ P)
    (h : Represents P family ns)
    (hgone : ∀ raw : Str,
      family'[raw]? = if p <+: raw then none else family[raw]?) :
    Represents P family' (Function.update ns p ∅) where
  lookup := by
    intro q hq k
    rw [hgone]
    by_cases hqp : q = p
    · subst hqp
      rw [if_pos (List.prefix_append q ('.' :: k)), Function.update_self]
      simp
    · rw [if_neg, Function.update_of_ne hqp, h.lookup q hq k]
      exact fun hbegins => hqp (hfree.eq_of_prefix_compose hp hq hbegins).symm
  owned := by
    intro raw hraw
    obtain ⟨data, hdata⟩ := mem_iff_exists_getElem?.mp hraw
    rw [hgone] at hdata
    split at hdata
    · cases hdata
    · exact h.owned raw (mem_iff_exists_getElem?.mpr ⟨data, hdata⟩)

/-- **Collections of a prefix-free set are private ordered maps.** -/
theorem collections_refines (overflowChecks : Bool) (name : Str) {P : Set Str}
    (hfree : PrefixFree P) :
    Backend.RefinesOn P (RocksDb.collections overflowChecks name)
      (Namespaces.collections overflowChecks) (Holds P (Represents P) name) where
  create := by
    intro db ps ns p hp h
    obtain ⟨hresult, hheld⟩ := h.create hp
    refine ⟨?_, rfl, hheld⟩
    show (db.createStore none name p).1.map (fun _ => ()) = .ok ()
    rw [hresult]
    rfl
  get := by
    intro db ps ns p key h hp
    obtain ⟨hmem, family, hfamily, hrep⟩ := h.family hp
    exact (hrep.readsLike hfree hfamily hmem).get key
  put := by
    intro db ps ns p key data h hp
    exact h.write hp fun family hrep => hrep.insert hfree (h.family hp).1 data
  del := by
    intro db ps ns p key h hp
    obtain ⟨hresult, hheld⟩ := h.write hp
      fun family hrep => hrep.erase hfree (h.family hp).1 (l := key)
    exact ⟨fun _ _ => hresult, hheld⟩
  purge := by
    intro db ps ns p h hp
    exact h.purge hp fun family family' hrep hgone =>
      represents_of_purge hfree (h.family hp).1 hrep hgone
  read := by
    intro db ps ns p query h hp
    obtain ⟨hmem, family, hfamily, hrep⟩ := h.family hp
    have hiter : RocksDbStore.Collection.iter db ⟨name, p⟩ = (ns p).iter :=
      funext (hrep.readsLike hfree hfamily hmem).iter
    show Collection.lazyAnswer overflowChecks
        (RocksDbStore.Collection.iter db ⟨name, p⟩) query = _
    rw [hiter, Collection.lazyAnswer_iter]
    rfl

/-- A family holds exactly the values of the states in `P`. -/
def StoresSlots (P : Set Str) (family : Table) (slots : Slots) : Prop :=
  (∀ p ∈ P, family[p]? = slots p) ∧ ∀ raw ∈ family, raw ∈ P

theorem StoresSlots.empty (P : Set Str) : StoresSlots P ∅ fun _ => none := by
  constructor
  · simp
  · simp

/-- A family that differs at the key of one state only. -/
theorem StoresSlots.update {P : Set Str} {family family' : Table}
    {slots : Slots} {p : Str} {slot : Option Bytes} (hp : p ∈ P)
    (h : StoresSlots P family slots)
    (hlookup : ∀ raw ∈ P, family'[raw]? = if raw = p then slot else family[raw]?)
    (howned : ∀ raw ∈ family', raw = p ∨ raw ∈ family) :
    StoresSlots P family' (Function.update slots p slot) := by
  constructor
  · intro q hq
    rw [hlookup q hq, Function.update_apply, h.1 q hq]
  · intro raw hraw
    rcases howned raw hraw with rfl | hold
    · exact hp
    · exact h.2 raw hold

/-- **States of a prefix-free set are single values.** -/
theorem states_refines (name : Str) {P : Set Str} (hfree : PrefixFree P) :
    Backend.RefinesOn P (RocksDb.states name) Slots.states
      (Holds P (StoresSlots P) name) where
  create := by
    intro db ps slots p hp h
    obtain ⟨hresult, hheld⟩ := h.create hp
    refine ⟨?_, rfl, hheld⟩
    show (db.createStore none name p).1.map (fun _ => ()) = .ok ()
    rw [hresult]
    rfl
  get := by
    intro db ps slots p _ h hp
    obtain ⟨hmem, family, hfamily, hslots⟩ := h.family hp
    show RocksDbStore.getRaw db none ⟨name, p⟩ p = _
    unfold RocksDbStore.getRaw Table.get
    simp only [hfamily, hslots.1 p hmem]
    rfl
  put := by
    intro db ps slots p _ data h hp
    refine h.write hp fun family hslots => hslots.update (h.family hp).1 ?_ ?_
    · exact fun raw _ => getElem?_insert_eq family p data raw
    · intro raw hraw
      rcases Std.ExtTreeMap.mem_insert.mp hraw with heq | hold
      · exact Or.inl (Std.LawfulEqOrd.eq_of_compare heq).symm
      · exact Or.inr hold
  del := by
    intro db ps slots p _ h hp
    obtain ⟨hresult, hheld⟩ := h.write hp (f := fun family => family.erase p)
      fun family hslots => hslots.update (h.family hp).1
        (fun raw _ => getElem?_erase_eq family p raw)
        fun raw hraw => Or.inr (Std.ExtTreeMap.mem_erase.mp hraw).2
    exact ⟨fun _ _ => hresult, hheld⟩
  purge := by
    intro db ps slots p h hp
    have hmem := (h.family hp).1
    refine h.purge hp fun family family' hslots hgone => hslots.update hmem ?_ ?_
    · intro raw hraw
      rw [hgone raw]
      by_cases heq : raw = p
      · subst heq
        simp
      · -- the other states of the set do not begin with the prefix
        have hnot : ¬ p <+: raw := fun hbegins =>
          heq (hfree p hmem raw hraw hbegins).symm
        rw [if_neg hnot, if_neg heq]
    · intro raw hraw
      obtain ⟨data, hdata⟩ := mem_iff_exists_getElem?.mp hraw
      rw [hgone] at hdata
      split at hdata
      · cases hdata
      · exact Or.inr (mem_iff_exists_getElem?.mpr ⟨data, hdata⟩)
  read := by
    intro db ps slots p query
    exact query.elim

/-- The family of a handle that was just created on an unwritten name. -/
theorem families_createStore {db : RocksDb} {name : Str}
    (hdb : db.Unwritten name) (p : Str) :
    (db.createStore none name p).1 = .ok ⟨name, p⟩ ∧
      (db.createStore none name p).2.families name = some ∅ := by
  unfold createStore
  cases hfamily : db.families name with
  | some family =>
      refine ⟨rfl, ?_⟩
      show db.families name = some ∅
      rw [hfamily, hdb family hfamily]
  | none => exact ⟨rfl, Function.update_self _ _ _⟩

theorem createStore_of_family {db : RocksDb} {name : Str} {family : Table}
    (hfamily : db.families name = some family) (p : Str) :
    db.createStore none name p = (.ok ⟨name, p⟩, db) := by
  simp [createStore, hfamily]

end RocksDb

/-- The same collections of a name: the same handles, and the same answers of
every handle. -/
structure SameReads (name : Str) (m : Handles MemoryManager)
    (s : Handles RocksDb) : Prop where
  opened : m.opened = s.opened
  get : ∀ p ∈ m.opened, ∀ key,
    MemoryStore.Collection.get m.held ⟨name, p⟩ key =
      RocksDbStore.Collection.get s.held none ⟨name, p⟩ key
  iter : ∀ p ∈ m.opened, ∀ reverse, ∃ entries,
    MemoryStore.Collection.iter m.held ⟨name, p⟩ reverse = .ok entries ∧
      RocksDbStore.Collection.iter s.held ⟨name, p⟩ reverse = entries.map some

/-- The same states of a name. -/
structure SameValues (name : Str) (m : Handles MemoryManager)
    (s : Handles RocksDb) : Prop where
  opened : m.opened = s.opened
  get : ∀ p ∈ m.opened,
    MemoryStore.State.get m.held ⟨name, p⟩ =
      RocksDbStore.State.get s.held none ⟨name, p⟩

/-- Sessions that are related to one specification have the same
collections. -/
theorem sameReads_of_related {name : Str} {P : Set Str} (hfree : PrefixFree P)
    {m : Handles MemoryManager} {s : Handles RocksDb} {t : Handles Namespaces}
    (hm : Backend.Related (MemoryManager.HoldsCollections name) m t)
    (hs : Backend.Related (RocksDb.Holds P (Represents P) name) s t) :
    SameReads name m s := by
  obtain ⟨hmopened, hmheld⟩ := hm
  obtain ⟨hsopened, hsheld⟩ := hs
  have hopened : m.opened = s.opened := hmopened.trans hsopened.symm
  refine ⟨hopened, ?_, ?_⟩
  · intro p hp key
    obtain ⟨hmem, family, hfamily, hrep⟩ := hsheld.family (hopened ▸ hp)
    rw [(hrep.readsLike hfree hfamily hmem).get key]
    exact MemoryManager.get_eq (hmheld p) key
  · intro p hp reverse
    obtain ⟨hmem, family, hfamily, hrep⟩ := hsheld.family (hopened ▸ hp)
    exact ⟨_, MemoryManager.iter_eq (hmheld p) reverse,
      (hrep.readsLike hfree hfamily hmem).iter reverse⟩

theorem sameValues_of_related {name : Str} {P : Set Str} (hfree : PrefixFree P)
    {m : Handles MemoryManager} {s : Handles RocksDb} {t : Handles Slots}
    (hm : Backend.Related (MemoryManager.HoldsStates name) m t)
    (hs : Backend.Related (RocksDb.Holds P (RocksDb.StoresSlots P) name) s t) :
    SameValues name m s := by
  obtain ⟨hmopened, hmheld⟩ := hm
  obtain ⟨hsopened, hsheld⟩ := hs
  have hopened : m.opened = s.opened := hmopened.trans hsopened.symm
  refine ⟨hopened, fun p hp => ?_⟩
  have hmget := (MemoryManager.states_refines name).get () hmheld hp
  have hsget := (RocksDb.states_refines name hfree).get () hsheld (hopened ▸ hp)
  exact hmget.trans hsget.symm

/-- An entry written through `q`, before the eyes of `p`. -/
def writesBeside (p q : Str) : List (Operation Str CollectionQuery) :=
  [.create p, .create q, .put q [] []]

/-- A value written through `q`, and a purge of `p`. -/
def purgesBeside (p q : Str) : List (Operation Unit Empty) :=
  [.create p, .create q, .put q () [], .purge p]

section Beside

variable {name p q : Str} {db : RocksDb}

/-- In RocksDB the entry is in the family of both. -/
theorem rocksDb_writesBeside {overflowChecks : Bool} {s : Handles RocksDb}
    {os : List (Outcome CollectionAnswer)} (hdb : db.Unwritten name)
    (hrun : execute (RocksDb.collections overflowChecks name).step ⟨db, []⟩
      (writesBeside p q) = some (s, os)) :
    s.held.families name = some (Std.ExtTreeMap.insert ∅ (q ++ ['.']) []) := by
  obtain ⟨hresult, hfamily⟩ := RocksDb.families_createStore hdb p
  have hsecond := RocksDb.createStore_of_family hfamily q
  generalize hcreated : db.createStore none name p = created at *
  obtain ⟨result, db'⟩ := created
  simp only at hresult hfamily hsecond
  subst hresult
  simp only [writesBeside, execute, Backend.step, RocksDb.collections, hcreated,
    hsecond, Except.map] at hrun
  obtain ⟨rfl, -⟩ : _ = s ∧ _ = os := by simpa using hrun
  simp [RocksDbStore.Collection.put, RocksDbStore.writeRaw, hfamily,
    RocksDb.families_update, RocksDbStore.rawKey]

/-- In memory it is not in the map of `p`. -/
theorem memory_writesBeside (name : Str) (overflowChecks : Bool) (hne : p ≠ q) :
    ∃ m os, execute (MemoryManager.collections overflowChecks name).step
        ⟨MemoryManager.new, []⟩ (writesBeside p q) = some (m, os) ∧
      p ∈ m.opened ∧
      MemoryStore.Collection.iter m.held ⟨name, p⟩ false = .ok [] := by
  have hagree := ((MemoryManager.collections_refines overflowChecks name).refinesOn
    Set.univ).execute_agree
      (show Backend.Related (MemoryManager.HoldsCollections name)
        ⟨MemoryManager.new, []⟩ ⟨Namespaces.empty, []⟩ from
          ⟨rfl, fun p => Represents.empty {p}⟩)
      (fun op (_ : op ∈ writesBeside p q) => op.within_univ)
  have hspec : execute (Namespaces.collections overflowChecks).step
      ⟨Namespaces.empty, []⟩ (writesBeside p q) =
      some (⟨Function.update Namespaces.empty q ((∅ : Table).insert [] []), [q, p]⟩,
        [.done (.ok ()), .done (.ok ()), .done (.ok ())]) := by
    simp [writesBeside, execute, Backend.step, Namespaces.collections,
      Namespaces.empty]
  rw [hspec] at hagree
  generalize hmem : execute _ _ _ = run at hagree ⊢
  cases hagree with
  | taken hstate _ =>
      obtain ⟨hopened, hheld⟩ := hstate
      refine ⟨_, _, rfl, hopened ▸ (by simp), ?_⟩
      have hown : Function.update Namespaces.empty q ((∅ : Table).insert [] []) p =
          ∅ := Function.update_of_ne hne _ _
      rw [MemoryManager.iter_eq (hheld p)]
      simp only [hown]
      rfl

/-- In RocksDB the value is taken by the purge. -/
theorem rocksDb_purgesBeside {s : Handles RocksDb} {os : List (Outcome Empty)}
    (hdb : db.Unwritten name) (hpq : p <+: q)
    (hrun : execute (RocksDb.states name).step ⟨db, []⟩ (purgesBeside p q) =
      some (s, os)) :
    ∃ family, s.held.families name = some family ∧ family[q]? = none := by
  obtain ⟨hresult, hfamily⟩ := RocksDb.families_createStore hdb p
  have hsecond := RocksDb.createStore_of_family hfamily q
  generalize hcreated : db.createStore none name p = created at *
  obtain ⟨result, db'⟩ := created
  simp only at hresult hfamily hsecond
  subst hresult
  have hput : RocksDbStore.State.put db' none ⟨name, q⟩ [] =
      (.ok (), db'.update name fun family => family.insert q []) := by
    simp [RocksDbStore.State.put, RocksDbStore.writeRaw, hfamily]
  have hwritten : (db'.update name fun family => family.insert q []).families
      name = some (Std.ExtTreeMap.insert ∅ q []) := by
    rw [RocksDb.families_update, hfamily]
    rfl
  obtain ⟨db'', hpurge⟩ := purgeKeys_succeeds ⟨name, p⟩
    (PurgeEngine.sound.scan (Std.ExtTreeMap.insert ∅ q []))
    (db'.update name fun family => family.insert q [])
  obtain ⟨⟨family', hfamily', hgone⟩, -⟩ := purgeKeys_ok hwritten hpurge
  have hpurged := (purge_eq_purgeKeys .sound p hwritten).1.trans hpurge
  simp only [purgesBeside, execute, Backend.step, RocksDb.states, hcreated,
    hsecond, hput, Except.map] at hrun
  obtain ⟨rfl, -⟩ : _ = s ∧ _ = os := by simpa using hrun
  refine ⟨family', by rw [hpurged]; exact hfamily', ?_⟩
  have hstored : (Std.ExtTreeMap.insert ∅ q [] : Table)[q]? = some [] := by simp
  rw [hgone]
  exact if_pos ⟨hpq, mem_scan_of_getElem? hstored⟩

theorem memory_purgesBeside (name : Str) (hne : p ≠ q) :
    ∃ m os, execute (MemoryManager.states name).step ⟨MemoryManager.new, []⟩
        (purgesBeside p q) = some (m, os) ∧
      q ∈ m.opened ∧ MemoryStore.State.get m.held ⟨name, q⟩ = .ok [] := by
  have hagree := ((MemoryManager.states_refines name).refinesOn
    Set.univ).execute_agree
      (show Backend.Related (MemoryManager.HoldsStates name)
        ⟨MemoryManager.new, []⟩ ⟨fun _ => none, []⟩ from
          ⟨rfl, fun p raw => by simp [MemoryManager.new, MemoryManager.content]⟩)
      (fun op (_ : op ∈ purgesBeside p q) => op.within_univ)
  have hspec : execute Slots.states.step ⟨fun _ => none, []⟩ (purgesBeside p q) =
      some (⟨Function.update (Function.update (fun _ => none) q (some [])) p none,
          [q, p]⟩,
        [.done (.ok ()), .done (.ok ()), .done (.ok ()), .done (.ok ())]) := by
    simp [purgesBeside, execute, Backend.step, Slots.states]
  rw [hspec] at hagree
  generalize hmem : execute _ _ _ = run at hagree ⊢
  cases hagree with
  | taken hstate _ =>
      obtain ⟨hopened, hheld⟩ := hstate
      simp only at hopened
      have hq : q ∈ Handles.opened _ := hopened.symm ▸ List.mem_cons_self
      refine ⟨_, _, rfl, hq, ?_⟩
      have hget := (MemoryManager.states_refines name).get () hheld hq
      refine hget.trans ?_
      simp [Slots.states, Function.update_of_ne hne.symm]

end Beside

/-- **RocksDB agrees with the memory backend.**  Over all sequences of calls
through handles of the prefixes in `P`, the collections of a name answer alike
and hold the same, if and only if no prefix in `P` is the beginning of another
one; and so do the states of a name. -/
theorem rocksDb_agrees_memory_iff (overflowChecks : Bool) {name : Str}
    {db : RocksDb} (hdb : db.Unwritten name) (P : Set Str) :
    ((∀ ops : List (Operation Str CollectionQuery), (∀ op ∈ ops, op.Within P) →
      Agree (SameReads name) SameOutcome
        (execute (MemoryManager.collections overflowChecks name).step
          ⟨MemoryManager.new, []⟩ ops)
        (execute (RocksDb.collections overflowChecks name).step ⟨db, []⟩ ops)) ↔
      PrefixFree P) ∧
    ((∀ ops : List (Operation Unit Empty), (∀ op ∈ ops, op.Within P) →
      Agree (SameValues name) SameOutcome
        (execute (MemoryManager.states name).step ⟨MemoryManager.new, []⟩ ops)
        (execute (RocksDb.states name).step ⟨db, []⟩ ops)) ↔
      PrefixFree P) := by
  refine ⟨⟨fun hall p hp q hq hpq => ?_, fun hfree ops hops => ?_⟩,
    ⟨fun hall p hp q hq hpq => ?_, fun hfree ops hops => ?_⟩⟩
  · by_contra hne
    have hagree := hall (writesBeside p q)
      (by simp [writesBeside, Operation.Within, hp, hq])
    obtain ⟨m, os, hmem, hopened, hnone⟩ :=
      memory_writesBeside name overflowChecks hne
    rw [hmem] at hagree
    generalize hrun : execute _ _ _ = run at hagree
    cases hagree with
    | taken hstate _ =>
        -- the iterator of `p` comes upon the entry of `q`
        obtain ⟨entries, hm, hs⟩ := hstate.iter p hopened false
        obtain rfl : [] = entries := Except.ok.inj (hnone.symm.trans hm)
        have hbegins : p <+: q ++ ['.'] := hpq.trans (List.prefix_append q ['.'])
        simp [RocksDbStore.Collection.iter, rocksDb_writesBeside hdb hrun,
          Table.entries, RocksDbStore.Collection.item, hbegins] at hs
  · have hm : Backend.Related (MemoryManager.HoldsCollections name)
        ⟨MemoryManager.new, []⟩ ⟨Namespaces.empty, []⟩ :=
      ⟨rfl, fun p => Represents.empty {p}⟩
    have hs : Backend.Related (RocksDb.Holds P (Represents P) name)
        ⟨db, []⟩ ⟨Namespaces.empty, []⟩ :=
      ⟨rfl, .start hdb (Represents.empty P)⟩
    have hagree := ((MemoryManager.collections_refines overflowChecks name).refinesOn
      P).agree (RocksDb.collections_refines overflowChecks name hfree) hm hs hops
    refine hagree.mono ?_ fun _ _ h => h
    rintro m s ⟨t, hmt, hst⟩
    exact sameReads_of_related hfree hmt hst
  · by_contra hne
    have hagree := hall (purgesBeside p q)
      (by simp [purgesBeside, Operation.Within, hp, hq])
    obtain ⟨m, os, hmem, hopened, hvalue⟩ := memory_purgesBeside name hne
    rw [hmem] at hagree
    generalize hrun : execute _ _ _ = run at hagree
    cases hagree with
    | taken hstate _ =>
        obtain ⟨family, hfamily, hgone⟩ := rocksDb_purgesBeside hdb hpq hrun
        have hget := hstate.get q hopened
        simp [hvalue, RocksDbStore.State.get, RocksDbStore.getRaw, hfamily,
          Table.get, hgone] at hget
  · have hm : Backend.Related (MemoryManager.HoldsStates name)
        ⟨MemoryManager.new, []⟩ ⟨fun _ => none, []⟩ :=
      ⟨rfl, fun p raw => by simp [MemoryManager.new, MemoryManager.content]⟩
    have hs : Backend.Related (RocksDb.Holds P (RocksDb.StoresSlots P) name)
        ⟨db, []⟩ ⟨fun _ => none, []⟩ :=
      ⟨rfl, .start hdb (RocksDb.StoresSlots.empty P)⟩
    have hagree := ((MemoryManager.states_refines name).refinesOn P).agree
      (RocksDb.states_refines name hfree) hm hs hops
    refine hagree.mono ?_ fun _ _ h => h
    rintro m s ⟨t, hmt, hst⟩
    exact sameValues_of_related hfree hmt hst

/-- Two keys of actors that do not begin with each other agree, and two that do
are told apart. -/
theorem keys_agree_memory :
    (∀ ops : List (Operation Str CollectionQuery),
      (∀ op ∈ ops, op.Within {"user1".toList, "user2".toList}) →
      Agree (SameReads "events".toList) SameOutcome
        (execute (MemoryManager.collections false "events".toList).step
          ⟨MemoryManager.new, []⟩ ops)
        (execute (RocksDb.collections false "events".toList).step
          ⟨⟨fun _ => none⟩, []⟩ ops)) ∧
    ¬ ∀ ops : List (Operation Unit Empty),
      (∀ op ∈ ops, op.Within {"user1".toList, "user10".toList}) →
      Agree (SameValues "states".toList) SameOutcome
        (execute (MemoryManager.states "states".toList).step
          ⟨MemoryManager.new, []⟩ ops)
        (execute (RocksDb.states "states".toList).step
          ⟨⟨fun _ => none⟩, []⟩ ops) := by
  have hnew : ∀ name, RocksDb.Unwritten ⟨fun _ => none⟩ name := by
    intro name family hfamily
    cases hfamily
  refine ⟨(rocksDb_agrees_memory_iff false (hnew _) _).1.mpr ?_,
    mt (rocksDb_agrees_memory_iff false (hnew _) _).2.mp ?_⟩
  · intro p hp q hq hpq
    rcases hp with rfl | rfl <;> rcases hq with rfl | rfl
    · rfl
    · exact absurd hpq (by decide)
    · exact absurd hpq (by decide)
    · rfl
  · intro hfree
    have heq := hfree "user1".toList (Or.inl rfl) "user10".toList (Or.inr rfl)
      (by decide)
    exact absurd heq (by decide)

end Database
end Rush
