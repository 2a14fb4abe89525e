import Rush.Database.RocksDbIsolation

/-!
# What a purge removes

Both purges delete the raw keys that start with the bare prefix.  Every entry of
a family has an author, the prefix of the handle that last put it.  A purge
removes exactly the entries whose author is its own prefix, for all contents of
the family, when no other handle can write a raw key that starts with it and the
iterator reports no error: the loop drops such an error and ends early.
-/

namespace Rush
namespace Database

open Foundation

/-- A handle on a column family. -/
inductive Handle
  | collection (keyPrefix : Str)
  | state (keyPrefix : Str)

namespace Handle

def keyPrefix : Handle → Str
  | collection q => q
  | state q => q

/-- The raw keys that the handle writes. -/
def Writes : Handle → Str → Prop
  | collection q, raw => ∃ k, raw = q ++ '.' :: k
  | state q, raw => raw = q

/-- Some raw key of the handle starts with `p`. -/
def Reaches : Handle → Str → Prop
  | collection q, p => Foundation.Reaches '.' q p
  | state q, p => p <+: q

theorem reaches_iff_exists {h : Handle} {p : Str} :
    h.Reaches p ↔ ∃ raw, h.Writes raw ∧ p <+: raw := by
  cases h with
  | collection q =>
      refine Foundation.reaches_iff_exists.trans ?_
      constructor
      · rintro ⟨k, hk⟩
        exact ⟨q ++ '.' :: k, ⟨k, rfl⟩, hk⟩
      · rintro ⟨_, ⟨k, rfl⟩, hk⟩
        exact ⟨k, hk⟩
  | state q => simp [Reaches, Writes]

theorem Writes.prefix_own {h : Handle} {raw : Str} (hraw : h.Writes raw) :
    h.keyPrefix <+: raw := by
  cases h with
  | collection q =>
      obtain ⟨k, rfl⟩ := hraw
      exact List.prefix_append q ('.' :: k)
  | state q =>
      obtain rfl : raw = q := hraw
      exact List.prefix_refl raw

end Handle

/-- One write through a handle of a family. -/
inductive HandleWrite
  | collection (write : CollectionWrite)
  | statePut (keyPrefix : Str) (data : Bytes)
  | stateDel (keyPrefix : Str)

namespace HandleWrite

def handle : HandleWrite → Handle
  | collection w => .collection w.keyPrefix
  | statePut q _ => .state q
  | stateDel q => .state q

def perform (name : Str) (db : RocksDb) : HandleWrite → RocksDb
  | collection w => w.perform name db
  | statePut q data => (RocksDbStore.State.put db none ⟨name, q⟩ data).2
  | stateDel q => (RocksDbStore.State.del db none ⟨name, q⟩).2

/-- The raw key of the write. -/
def raw : HandleWrite → Str
  | collection (.put q key _) => q ++ '.' :: key
  | collection (.del q key) => q ++ '.' :: key
  | statePut q _ => q
  | stateDel q => q

/-- What the write leaves under its raw key. -/
def data? : HandleWrite → Option Bytes
  | collection (.put _ _ data) => some data
  | collection (.del _ _) => none
  | statePut _ data => some data
  | stateDel _ => none

theorem writes_raw (w : HandleWrite) : w.handle.Writes w.raw := by
  cases w with
  | collection w => cases w <;> exact ⟨_, rfl⟩
  | statePut q data => rfl
  | stateDel q => rfl

/-- Every raw key of a handle is put by one of its writes. -/
theorem exists_put {h : Handle} {raw : Str} (hraw : h.Writes raw) :
    ∃ w : HandleWrite, w.handle = h ∧ w.raw = raw ∧ w.data? = some [] := by
  cases h with
  | collection q =>
      obtain ⟨k, rfl⟩ := hraw
      exact ⟨.collection (.put q k []), rfl, rfl, rfl⟩
  | state q => exact ⟨.statePut q [], rfl, hraw.symm, rfl⟩

/-- A write changes one raw key of its family and nothing else. -/
theorem perform_families {name : Str} {db : RocksDb} {family : Table}
    (hdb : db.families name = some family) (w : HandleWrite) :
    ∃ family', (w.perform name db).families name = some family' ∧
      ∀ raw, family'[raw]? = if raw = w.raw then w.data? else family[raw]? := by
  cases w with
  | collection w =>
      cases w with
      | put q key data =>
          refine ⟨family.insert (q ++ '.' :: key) data, ?_,
            fun key' => getElem?_insert_eq family _ data key'⟩
          simp [perform, CollectionWrite.perform, RocksDbStore.Collection.put,
            RocksDbStore.writeRaw, hdb, RocksDb.families_update,
            RocksDbStore.rawKey]
      | del q key =>
          refine ⟨family.erase (q ++ '.' :: key), ?_,
            fun key' => getElem?_erase_eq family _ key'⟩
          simp [perform, CollectionWrite.perform, RocksDbStore.Collection.del,
            RocksDbStore.writeRaw, hdb, RocksDb.families_update,
            RocksDbStore.rawKey]
  | statePut q data =>
      refine ⟨family.insert q data, ?_,
        fun key => getElem?_insert_eq family q data key⟩
      simp [perform, RocksDbStore.State.put, RocksDbStore.writeRaw, hdb,
        RocksDb.families_update]
  | stateDel q =>
      refine ⟨family.erase q, ?_, fun key => getElem?_erase_eq family q key⟩
      simp [perform, RocksDbStore.State.del, RocksDbStore.writeRaw, hdb,
        RocksDb.families_update]

end HandleWrite

/-- The specification: the prefix through which each raw key was last put. -/
abbrev Authors := Str → Option Str

namespace Authors

def empty : Authors := fun _ => none

/-- A put makes its prefix the author of the raw key, a deletion leaves none. -/
def perform (authors : Authors) (w : HandleWrite) : Authors :=
  Function.update authors w.raw (w.data?.map fun _ => w.handle.keyPrefix)

end Authors

/-- The entries of a family are those with an author in `H`. -/
structure Authored (H : Set Handle) (family : Table) (authors : Authors) :
    Prop where
  entries : ∀ raw, (family[raw]?).isSome = (authors raw).isSome
  written : ∀ raw p, authors raw = some p →
    ∃ h ∈ H, h.keyPrefix = p ∧ h.Writes raw

namespace Authored

variable {H : Set Handle} {family : Table} {authors : Authors}

theorem empty (H : Set Handle) : Authored H ∅ Authors.empty where
  entries := by simp [Authors.empty]
  written := by simp [Authors.empty]

/-- One write through a handle of `H` keeps the account of authors. -/
theorem perform (h : Authored H family authors) {name : Str} {db : RocksDb}
    (hdb : db.families name = some family) {w : HandleWrite}
    (hw : w.handle ∈ H) :
    ∃ family', (w.perform name db).families name = some family' ∧
      Authored H family' (authors.perform w) := by
  obtain ⟨family', hdb', hlookup⟩ := w.perform_families hdb
  refine ⟨family', hdb', ?_, ?_⟩
  · intro raw
    rw [hlookup, Authors.perform, Function.update_apply]
    by_cases hraw : raw = w.raw
    · rw [if_pos hraw, if_pos hraw, Option.isSome_map]
    · rw [if_neg hraw, if_neg hraw]
      exact h.entries raw
  · intro raw p hp
    rw [Authors.perform, Function.update_apply] at hp
    by_cases hraw : raw = w.raw
    · rw [if_pos hraw, Option.map_eq_some_iff] at hp
      obtain ⟨data, -, hpq⟩ := hp
      exact ⟨w.handle, hw, hpq, hraw ▸ w.writes_raw⟩
    · rw [if_neg hraw] at hp
      exact h.written raw p hp

/-- Any sequence of writes keeps it. -/
theorem foldl_perform {name : Str} (ws : List HandleWrite)
    (hws : ∀ w ∈ ws, w.handle ∈ H) :
    ∀ {db : RocksDb} {family : Table} {authors : Authors},
      db.families name = some family → Authored H family authors →
      ∃ family', (ws.foldl (HandleWrite.perform name) db).families name =
          some family' ∧
        Authored H family' (ws.foldl Authors.perform authors) := by
  induction ws with
  | nil => exact fun hdb h => ⟨_, hdb, h⟩
  | cons w ws ih =>
      intro db family authors hdb h
      obtain ⟨family', hdb', h'⟩ := h.perform hdb (hws w List.mem_cons_self)
      exact ih (fun w' hw' => hws w' (List.mem_cons_of_mem w hw')) hdb' h'

/-- What has an author is stored. -/
theorem stored (h : Authored H family authors) {raw p : Str}
    (hauthor : authors raw = some p) : ∃ data, family[raw]? = some data := by
  refine Option.isSome_iff_exists.mp ?_
  rw [h.entries raw, hauthor]
  rfl

theorem not_stored (h : Authored H family authors) {raw : Str}
    (hauthor : authors raw = none) : family[raw]? = none := by
  refine Option.isNone_iff_eq_none.mp ?_
  rw [← Option.not_isSome, h.entries raw, hauthor]
  rfl

/-- If the other handles of `H` stay off `p`, the entries whose raw key starts
with `p` are those written through `p`. -/
theorem prefix_iff_author (h : Authored H family authors) {p raw : Str}
    (hforeign : ∀ h ∈ H, h.keyPrefix ≠ p → ¬ h.Reaches p)
    (hstored : (family[raw]?).isSome) : p <+: raw ↔ authors raw = some p := by
  obtain ⟨q, hq⟩ := Option.isSome_iff_exists.mp (h.entries raw ▸ hstored)
  obtain ⟨handle, hhandle, rfl, hwrites⟩ := h.written raw q hq
  rw [hq, Option.some_inj]
  constructor
  · intro hp
    by_contra hne
    have hreaches : handle.Reaches p :=
      Handle.reaches_iff_exists.mpr ⟨raw, hwrites, hp⟩
    exact hforeign handle hhandle hne hreaches
  · intro heq
    exact heq ▸ hwrites.prefix_own

end Authored

/-- The scan of a family yields entries of it. -/
theorem isSome_of_mem_scan {engine : PurgeEngine} {family : Table} {raw : Str}
    (hraw : raw ∈ engine.scan family) : (family[raw]?).isSome := by
  have hmem : raw ∈ family.toList.map Prod.fst := by
    unfold PurgeEngine.scan at hraw
    split at hraw
    · exact hraw
    · exact List.mem_of_mem_take hraw
  obtain ⟨entry, hentry, rfl⟩ := List.mem_map.mp hmem
  rw [Std.ExtTreeMap.mem_toList_iff_getElem?_eq_some.mp hentry]
  rfl

/-- A scan without an error yields all of them. -/
theorem mem_scan_of_getElem? {delete : Str → Option String} {family : Table}
    {raw : Str} {data : Bytes} (hstored : family[raw]? = some data) :
    raw ∈ PurgeEngine.scan ⟨none, delete⟩ family :=
  List.mem_map.mpr ⟨(raw, data),
    Std.ExtTreeMap.mem_toList_iff_getElem?_eq_some.mpr hstored, rfl⟩

/-- A purge whose deletions all succeed succeeds. -/
theorem purgeKeys_succeeds (store : RocksDbStore) (raws : List Str)
    (db : RocksDb) :
    ∃ db', store.purgeKeys (fun _ => none) raws db = (.ok (), db') := by
  induction raws generalizing db with
  | nil => exact ⟨db, rfl⟩
  | cons key raws ih =>
      unfold RocksDbStore.purgeKeys
      split
      · exact ih _
      · exact ih _

/-- What a purge that succeeds leaves of a family: the raw keys it was given
that start with the prefix are gone, and nothing else has changed. -/
theorem purgeKeys_ok {store : RocksDbStore} {delete : Str → Option String}
    {raws : List Str} {db db' : RocksDb} {family : Table}
    (hdb : db.families store.name = some family)
    (hok : store.purgeKeys delete raws db = (.ok (), db')) :
    (∃ family', db'.families store.name = some family' ∧
      ∀ raw, family'[raw]? =
        if store.keyPrefix <+: raw ∧ raw ∈ raws then none else family[raw]?) ∧
      ∀ other ≠ store.name, db'.families other = db.families other := by
  induction raws generalizing db family with
  | nil =>
      have hsame : db = db' := by simpa [RocksDbStore.purgeKeys] using hok
      subst hsame
      exact ⟨⟨family, hdb, by simp⟩, fun _ _ => rfl⟩
  | cons key raws ih =>
      rw [RocksDbStore.purgeKeys] at hok
      by_cases hkey : store.keyPrefix <+: key
      · rw [if_pos (List.isPrefixOf_iff_prefix.mpr hkey)] at hok
        cases hdel : delete key with
        | some e => simp [hdel] at hok
        | none =>
            simp only [hdel] at hok
            obtain ⟨⟨family', hdb', hrest⟩, hother⟩ :=
              ih (by rw [RocksDb.families_update, hdb]; rfl) hok
            refine ⟨⟨family', hdb', fun raw => ?_⟩, fun other hne => ?_⟩
            · -- the key that was just deleted, and all others
              rw [hrest, getElem?_erase_eq]
              by_cases hraw : raw = key
              · subst hraw
                simp [hkey]
              · simp [hraw]
            · rw [hother other hne]
              exact Function.update_of_ne hne _ _
      · rw [if_neg (fun h => hkey (List.isPrefixOf_iff_prefix.mp h))] at hok
        obtain ⟨⟨family', hdb', hrest⟩, hother⟩ := ih hdb hok
        refine ⟨⟨family', hdb', fun raw => ?_⟩, hother⟩
        rw [hrest]
        by_cases hraw : raw = key
        · subst hraw
          simp [hkey]
        · simp [hraw]

/-- The purge of `p` has removed the entries that were written through `p`, and
left every other entry of every family as it was. -/
structure PurgesOwn (authors : Authors) (name p : Str) (db db' : RocksDb) :
    Prop where
  family : ∀ family, db.families name = some family →
    ∃ family', db'.families name = some family' ∧
      ∀ raw, family'[raw]? =
        if authors raw = some p then none else family[raw]?
  others : ∀ other ≠ name, db'.families other = db.families other

/-- The iterator yields every entry that was written through `p`, and no other
one whose raw key starts with `p`. -/
structure YieldsOwn (authors : Authors) (p : Str) (engine : PurgeEngine)
    (family : Table) : Prop where
  own : ∀ raw, authors raw = some p → raw ∈ engine.scan family
  foreign : ∀ raw q, authors raw = some q → q ≠ p → p <+: raw →
    raw ∉ engine.scan family

/-- The purges are the loop over what the scan of the family yields. -/
theorem purge_eq_purgeKeys (engine : PurgeEngine) (p : Str) {db : RocksDb}
    {name : Str} {family : Table} (hdb : db.families name = some family) :
    RocksDbStore.State.purge db engine ⟨name, p⟩ =
        RocksDbStore.purgeKeys engine.delete ⟨name, p⟩ (engine.scan family) db ∧
      RocksDbStore.Collection.purge db engine ⟨name, p⟩ =
        RocksDbStore.purgeKeys engine.delete ⟨name, p⟩ (engine.scan family) db := by
  constructor
  · simp [RocksDbStore.State.purge, RocksDbStore.purgeRaw, hdb]
  · simp [RocksDbStore.Collection.purge, RocksDbStore.purgeRaw, hdb]

/-- A successful purge of `p` removes what was written through `p`, and nothing
else, if and only if this is what the iterator yields under `p`. -/
theorem purgesOwn_iff_yieldsOwn {H : Set Handle} {authors : Authors}
    {name p : Str} {engine : PurgeEngine} {db db' : RocksDb} {family : Table}
    (hdb : db.families name = some family)
    (hauthored : Authored H family authors)
    (hok : RocksDbStore.purgeKeys engine.delete ⟨name, p⟩ (engine.scan family)
      db = (.ok (), db')) :
    PurgesOwn authors name p db db' ↔ YieldsOwn authors p engine family := by
  obtain ⟨⟨family', hdb', hgone⟩, hother⟩ := purgeKeys_ok hdb hok
  constructor
  · intro h
    obtain ⟨family'', hdb'', hown⟩ := h.family family hdb
    obtain rfl : family' = family'' := Option.some.inj (hdb'.symm.trans hdb'')
    have hlookup := fun raw => (hgone raw).symm.trans (hown raw)
    constructor
    · intro raw hauthor
      obtain ⟨data, hstored⟩ := hauthored.stored hauthor
      have hraw := hlookup raw
      rw [if_pos hauthor, hstored] at hraw
      by_contra hmissed
      simp [hmissed] at hraw
    · intro raw q hauthor hne hbegins hscanned
      obtain ⟨data, hstored⟩ := hauthored.stored hauthor
      have hraw := hlookup raw
      rw [if_pos ⟨hbegins, hscanned⟩, hauthor, if_neg (by simpa using hne),
        hstored] at hraw
      contradiction
  · intro h
    refine ⟨fun family₀ hdb₀ => ?_, hother⟩
    obtain rfl : family = family₀ := Option.some.inj (hdb.symm.trans hdb₀)
    refine ⟨family', hdb', fun raw => ?_⟩
    rw [hgone raw]
    cases hauthor : authors raw with
    | none =>
        simp [hauthored.not_stored hauthor]
    | some q =>
        by_cases hq : q = p
        · subst hq
          obtain ⟨handle, -, rfl, hwrites⟩ := hauthored.written raw q hauthor
          rw [if_pos ⟨hwrites.prefix_own, h.own raw hauthor⟩, if_pos rfl]
        · have hnot : ¬ (p <+: raw ∧ raw ∈ engine.scan family) :=
            fun ⟨hbegins, hscanned⟩ =>
              h.foreign raw q hauthor hq hbegins hscanned
          rw [if_neg hnot, if_neg (by simpa using hq)]

/-- An iterator without an error yields what was written through `p`, and no
other entry under `p` if the other handles stay off `p`. -/
theorem yieldsOwn_of_not_reaches {H : Set Handle} {authors : Authors}
    {p : Str} {engine : PurgeEngine} {family : Table}
    (hauthored : Authored H family authors) (hscan : engine.scanError = none)
    (hforeign : ∀ h ∈ H, h.keyPrefix ≠ p → ¬ h.Reaches p) :
    YieldsOwn authors p engine family := by
  obtain ⟨scanError, delete⟩ := engine
  obtain rfl : scanError = none := hscan
  constructor
  · intro raw hauthor
    obtain ⟨data, hstored⟩ := hauthored.stored hauthor
    exact mem_scan_of_getElem? hstored
  · intro raw q hauthor hne hbegins hscanned
    have hown := (hauthored.prefix_iff_author hforeign
      (isSome_of_mem_scan hscanned)).mp hbegins
    exact hne (Option.some.inj (hauthor.symm.trans hown))

/-- A handle with another prefix that reaches `p` can lose an entry to a purge
of `p`. -/
theorem exists_purge_of_reaches {db : RocksDb} {name p : Str} {h : Handle}
    (hempty : db.families name = some ∅) (hne : h.keyPrefix ≠ p)
    (hreaches : h.Reaches p) :
    ∃ (w : HandleWrite) (engine : PurgeEngine) (db' : RocksDb), w.handle = h ∧
      engine.scanError = none ∧
      RocksDbStore.State.purge (w.perform name db) engine ⟨name, p⟩ =
        (.ok (), db') ∧
      ¬ PurgesOwn (Authors.empty.perform w) name p (w.perform name db) db' := by
  obtain ⟨raw, hraw, hp⟩ := Handle.reaches_iff_exists.mp hreaches
  obtain ⟨w, hw, hwraw, hdata⟩ := HandleWrite.exists_put hraw
  obtain ⟨family, hdb, hlookup⟩ := w.perform_families hempty
  have hstored : family[raw]? = some [] := by
    rw [hlookup, if_pos hwraw.symm, hdata]
  have hauthor : Authors.empty.perform w raw = some h.keyPrefix := by
    rw [Authors.perform, hwraw, Function.update_self, hdata, hw]
    rfl
  let engine : PurgeEngine := ⟨none, fun _ => none⟩
  obtain ⟨db', hpurge⟩ := purgeKeys_succeeds ⟨name, p⟩ (engine.scan family)
    (w.perform name db)
  refine ⟨w, engine, db', hw, rfl,
    (purge_eq_purgeKeys engine p hdb).1.trans hpurge, ?_⟩
  intro hpurges
  obtain ⟨family', hdb', hown⟩ := hpurges.family family hdb
  obtain ⟨⟨family'', hdb'', hgone⟩, -⟩ := purgeKeys_ok hdb hpurge
  obtain rfl : family' = family'' := Option.some.inj (hdb'.symm.trans hdb'')
  -- the raw key starts with `p`, but its author is another
  have hremoved : family'[raw]? = none := by
    rw [hgone raw, if_pos ⟨hp, mem_scan_of_getElem? hstored⟩]
  have hkept : family'[raw]? = some [] := by
    rw [hown raw, if_neg, hstored]
    intro hown
    exact hne (Option.some.inj (hauthor.symm.trans hown))
  rw [hremoved] at hkept
  contradiction

/-- **Purge isolation.**  Over all contents that the handles of `H` can give a
family, a successful purge of `p` whose iterator reports no error removes exactly
the entries written through `p`, if and only if no handle with another prefix
writes a raw key that starts with `p`.  Whatever the iterator reports, a
successful purge does so if and only if the entries yielded under `p` are those
written through `p`. -/
theorem purge_removes_own_iff (db : RocksDb) (name p : Str) (H : Set Handle) :
    ((∀ ws : List HandleWrite, (∀ w ∈ ws, w.handle ∈ H) →
      ∀ (engine : PurgeEngine) (db' : RocksDb), engine.scanError = none →
        RocksDbStore.State.purge
            (ws.foldl (HandleWrite.perform name) (db.withEmptyFamily name))
            engine ⟨name, p⟩ = (.ok (), db') ∨
          RocksDbStore.Collection.purge
            (ws.foldl (HandleWrite.perform name) (db.withEmptyFamily name))
            engine ⟨name, p⟩ = (.ok (), db') →
        PurgesOwn (ws.foldl Authors.perform Authors.empty) name p
          (ws.foldl (HandleWrite.perform name) (db.withEmptyFamily name)) db') ↔
      ∀ h ∈ H, h.keyPrefix ≠ p → ¬ h.Reaches p) ∧
    ∀ ws : List HandleWrite, (∀ w ∈ ws, w.handle ∈ H) →
      ∀ (engine : PurgeEngine) (db' : RocksDb),
        RocksDbStore.State.purge
            (ws.foldl (HandleWrite.perform name) (db.withEmptyFamily name))
            engine ⟨name, p⟩ = (.ok (), db') ∨
          RocksDbStore.Collection.purge
            (ws.foldl (HandleWrite.perform name) (db.withEmptyFamily name))
            engine ⟨name, p⟩ = (.ok (), db') →
        ∃ family,
          (ws.foldl (HandleWrite.perform name)
              (db.withEmptyFamily name)).families name = some family ∧
            (PurgesOwn (ws.foldl Authors.perform Authors.empty) name p
                (ws.foldl (HandleWrite.perform name) (db.withEmptyFamily name))
                db' ↔
              YieldsOwn (ws.foldl Authors.perform Authors.empty) p engine
                family) := by
  have hempty : (db.withEmptyFamily name).families name = some ∅ := by
    simp [RocksDb.withEmptyFamily]
  have hcontents : ∀ ws : List HandleWrite, (∀ w ∈ ws, w.handle ∈ H) →
      ∃ family, (ws.foldl (HandleWrite.perform name)
          (db.withEmptyFamily name)).families name = some family ∧
        Authored H family (ws.foldl Authors.perform Authors.empty) :=
    fun ws hws => Authored.foldl_perform ws hws hempty (Authored.empty H)
  refine ⟨⟨?_, ?_⟩, ?_⟩
  · intro hall h hh hne hreaches
    obtain ⟨w, engine, db', hw, hscan, hok, hnot⟩ :=
      exists_purge_of_reaches hempty hne hreaches
    refine hnot (hall [w] ?_ engine db' hscan (Or.inl hok))
    simpa using hw.symm ▸ hh
  · intro hforeign ws hws engine db' hscan hok
    obtain ⟨family, hdb, hauthored⟩ := hcontents ws hws
    obtain ⟨hstate, hcollection⟩ := purge_eq_purgeKeys engine p hdb
    rw [hstate, hcollection, or_self] at hok
    exact (purgesOwn_iff_yieldsOwn hdb hauthored hok).mpr
      (yieldsOwn_of_not_reaches hauthored hscan hforeign)
  · intro ws hws engine db' hok
    obtain ⟨family, hdb, hauthored⟩ := hcontents ws hws
    obtain ⟨hstate, hcollection⟩ := purge_eq_purgeKeys engine p hdb
    rw [hstate, hcollection, or_self] at hok
    exact ⟨family, hdb, purgesOwn_iff_yieldsOwn hdb hauthored hok⟩

/-- The actor keys `user1` and `user10` in one family of states: purging the
state of `user1` deletes the snapshot of `user10`. -/
theorem purge_of_user1_removes_user10 :
    let ws := [HandleWrite.statePut "user10".toList [7]]
    let db := ws.foldl (HandleWrite.perform "states".toList)
      (RocksDb.withEmptyFamily ⟨fun _ => none⟩ "states".toList)
    let engine : PurgeEngine := ⟨none, fun _ => none⟩
    let purged := RocksDbStore.State.purge db engine
      ⟨"states".toList, "user1".toList⟩
    purged.1 = .ok () ∧
      RocksDbStore.State.get db none ⟨"states".toList, "user10".toList⟩ =
        .ok [7] ∧
      RocksDbStore.State.get purged.2 none
          ⟨"states".toList, "user10".toList⟩ =
        .error (.entryNotFound "Query returned no rows") ∧
      ¬ PurgesOwn (ws.foldl Authors.perform Authors.empty) "states".toList
        "user1".toList db purged.2 := by
  intro ws db engine purged
  have hbefore : RocksDbStore.State.get db none
      ⟨"states".toList, "user10".toList⟩ = .ok [7] := by
    decide
  have hafter : RocksDbStore.State.get purged.2 none
      ⟨"states".toList, "user10".toList⟩ =
        .error (.entryNotFound "Query returned no rows") := by
    decide
  refine ⟨by decide, hbefore, hafter, fun hpurges => ?_⟩
  obtain ⟨family', hdb', hown⟩ := hpurges.family _ rfl
  have hkept : family'["user10".toList]? = some [7] := by
    rw [hown "user10".toList, if_neg (by decide)]
    decide
  have hstill : RocksDbStore.State.get purged.2 none
      ⟨"states".toList, "user10".toList⟩ = .ok [7] := by
    simp only [RocksDbStore.State.get, RocksDbStore.getRaw, hdb', Table.get,
      hkept]
  rw [hafter] at hstill
  contradiction

end Database
end Rush
