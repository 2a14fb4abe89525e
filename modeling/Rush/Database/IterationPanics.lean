import Rush.Database.Memory
import Rush.Database.RocksDb
import Rush.Foundation.Execution

/-!
# When an iterator cuts a key in the wrong place

RocksDB and the memory backend cut `prefix.len() + 1` bytes from every raw key
that starts with the prefix of the iterator.  That goes wrong for a raw key that
is the prefix itself, and for one that goes on with a character of more than one
byte.  Which raw keys a map holds is read off the calls that have put them.
-/

namespace Rush
namespace Database

open Foundation

/-- The raw key starts with the prefix, and cutting one byte more panics. -/
def Miscut (keyPrefix raw : Str) : Prop :=
  keyPrefix <+: raw ∧ sliceFrom raw (utf8Len keyPrefix + 1) = none

instance (keyPrefix raw : Str) : Decidable (Miscut keyPrefix raw) :=
  inferInstanceAs (Decidable (_ ∧ _))

/-- The first byte of a text is no character of its own. -/
theorem sliceFrom_one_eq_none {s : Str} :
    sliceFrom s 1 = none ↔ s = [] ∨ ∃ c t, s = c :: t ∧ 1 < c.utf8Size := by
  cases s with
  | nil => simp [sliceFrom]
  | cons c t =>
      have hpos : 0 < c.utf8Size := Char.utf8Size_pos c
      by_cases hone : c.utf8Size ≤ 1
      · have hzero : 1 - c.utf8Size = 0 := by omega
        simp [sliceFrom, hone, hzero]
      · simpa [sliceFrom, hone] using Nat.lt_of_not_le hone

theorem miscut_iff {keyPrefix raw : Str} :
    Miscut keyPrefix raw ↔
      raw = keyPrefix ∨ ∃ c t, raw = keyPrefix ++ c :: t ∧ 1 < c.utf8Size := by
  unfold Miscut
  constructor
  · rintro ⟨⟨rest, rfl⟩, hslice⟩
    rw [sliceFrom_append, sliceFrom_one_eq_none] at hslice
    rcases hslice with rfl | ⟨c, t, rfl, hsize⟩
    · exact Or.inl (by simp)
    · exact Or.inr ⟨c, t, rfl, hsize⟩
  · rintro (rfl | ⟨c, t, rfl, hsize⟩)
    · refine ⟨List.prefix_refl raw, ?_⟩
      have hslice := sliceFrom_append raw [] 1
      rw [List.append_nil] at hslice
      rw [hslice, sliceFrom_one_eq_none]
      exact Or.inl rfl
    · refine ⟨List.prefix_append keyPrefix (c :: t), ?_⟩
      rw [sliceFrom_append, sliceFrom_one_eq_none]
      exact Or.inr ⟨c, t, rfl, hsize⟩

theorem not_miscut_iff {keyPrefix raw : Str} :
    ¬ Miscut keyPrefix raw ↔
      raw ≠ keyPrefix ∧ ∀ c t, raw = keyPrefix ++ c :: t → c.utf8Size = 1 := by
  rw [miscut_iff, not_or]
  refine and_congr_right fun _ => ?_
  constructor
  · intro hnot c t heq
    by_contra hsize
    have hpos : 0 < c.utf8Size := Char.utf8Size_pos c
    exact hnot ⟨c, t, heq, by omega⟩
  · rintro hone ⟨c, t, heq, hsize⟩
    rw [hone c t heq] at hsize
    omega

/-- The separator has one byte. -/
theorem not_miscut_separator (keyPrefix key : Str) :
    ¬ Miscut keyPrefix (keyPrefix ++ '.' :: key) := by
  refine not_miscut_iff.mpr ⟨by simp, fun c t heq => ?_⟩
  obtain ⟨rfl, -⟩ : '.' = c ∧ key = t := by simpa using heq
  rfl

section Entries

variable {table : Table} {reverse : Bool}

theorem mem_entries_iff {entry : Str × Bytes} :
    entry ∈ table.entries reverse ↔ table[entry.1]? = some entry.2 := by
  unfold Table.entries
  rw [← Std.ExtTreeMap.mem_toList_iff_getElem?_eq_some]
  split
  · exact List.mem_reverse
  · exact Iff.rfl

/-- The items of the lazy iterator hold a panic if and only if a raw key of the
family is cut in the wrong place. -/
theorem none_mem_items_iff (store : RocksDbStore) :
    none ∈ (table.entries reverse).filterMap
        (RocksDbStore.Collection.item store) ↔
      ∃ raw ∈ table, Miscut store.keyPrefix raw := by
  rw [List.mem_filterMap]
  constructor
  · rintro ⟨entry, hentry, hitem⟩
    unfold RocksDbStore.Collection.item at hitem
    split at hitem
    case isTrue hprefix =>
      refine ⟨entry.1, ?_, by simpa using hprefix, by simpa using hitem⟩
      exact mem_iff_exists_getElem?.mpr ⟨_, mem_entries_iff.mp hentry⟩
    case isFalse => contradiction
  · rintro ⟨raw, hraw, hprefix, hslice⟩
    obtain ⟨data, hdata⟩ := mem_iff_exists_getElem?.mp hraw
    refine ⟨(raw, data), mem_entries_iff.mpr hdata, ?_⟩
    simp [RocksDbStore.Collection.item, hprefix, hslice]

theorem mapM_eq_none_iff {β γ : Type} {f : β → Option γ} {xs : List β} :
    xs.mapM f = none ↔ ∃ x ∈ xs, f x = none := by
  induction xs with
  | nil => simp
  | cons x xs ih =>
      cases hx : f x with
      | none => simp [hx]
      | some y =>
          cases hxs : xs.mapM f with
          | none => simpa [hx, hxs] using ih.mp hxs
          | some ys => simpa [hx, hxs] using ih.not.mp (by simp [hxs])

/-- The memory iterator panics under the same condition on its own map. -/
theorem iter_eq_panic_iff (manager : MemoryManager) (store : MemoryStore) :
    MemoryStore.Collection.iter manager store reverse = .error .panic ↔
      ∃ raw ∈ manager.content store, Miscut store.keyPrefix raw := by
  have hcut : MemoryStore.Collection.iter manager store reverse = .error .panic ↔
      (((manager.content store).entries reverse).filter fun entry =>
        store.keyPrefix.isPrefixOf entry.1).mapM
          (MemoryStore.Collection.cutKey store) = none := by
    unfold MemoryStore.Collection.iter
    simp only
    split <;> simp_all
  rw [hcut, mapM_eq_none_iff]
  constructor
  · rintro ⟨entry, hentry, hitem⟩
    obtain ⟨hmem, hprefix⟩ := List.mem_filter.mp hentry
    refine ⟨entry.1, ?_, by simpa using hprefix, ?_⟩
    · exact mem_iff_exists_getElem?.mpr ⟨_, mem_entries_iff.mp hmem⟩
    · simpa [MemoryStore.Collection.cutKey] using hitem
  · rintro ⟨raw, hraw, hprefix, hslice⟩
    obtain ⟨data, hdata⟩ := mem_iff_exists_getElem?.mp hraw
    refine ⟨(raw, data), List.mem_filter.mpr
      ⟨mem_entries_iff.mpr hdata, by simpa using hprefix⟩, ?_⟩
    simp [MemoryStore.Collection.cutKey, hslice]

end Entries

/-- The calls of a manager and of its handles that put something.  `κ` names the
maps behind the handles, `ε` is what the engine reports. -/
structure PutCalls (σ η κ ε : Type) where
  create : ε → σ → Str → Str → Except StoreError η × σ
  put : ε → σ → η → Str → Bytes → Except StoreError Unit × σ
  putState : ε → σ → η → Bytes → Except StoreError Unit × σ
  content : σ → κ → Option Table
  place : η → κ
  rawKey : η → Str → Str
  stateKey : η → Str

/-- `create_collection` and `create_state` have one body in both backends. -/
inductive PutCall (η ε : Type)
  | create (engine : ε) (name keyPrefix : Str)
  | put (engine : ε) (store : η) (key : Str) (data : Bytes)
  | putState (engine : ε) (store : η) (data : Bytes)

/-- What the manager holds, and the handles that were created. -/
structure Opened (σ η : Type) where
  held : σ
  handles : List η

namespace PutCalls

variable {σ η κ ε : Type} [DecidableEq η] (api : PutCalls σ η κ ε)

/-- A call, with the raw key that it has put into a map. -/
def step (s : Opened σ η) :
    PutCall η ε → Option (Opened σ η × List (κ × Str))
  | .create engine name keyPrefix =>
      match api.create engine s.held name keyPrefix with
      | (.ok store, held) => some (⟨held, store :: s.handles⟩, [])
      | (.error _, held) => some (⟨held, s.handles⟩, [])
  | .put engine store key data =>
      if store ∈ s.handles then
        match api.put engine s.held store key data with
        | (.ok (), held) =>
            some (⟨held, s.handles⟩, [(api.place store, api.rawKey store key)])
        | (.error _, held) => some (⟨held, s.handles⟩, [])
      else none
  | .putState engine store data =>
      if store ∈ s.handles then
        match api.putState engine s.held store data with
        | (.ok (), held) =>
            some (⟨held, s.handles⟩, [(api.place store, api.stateKey store)])
        | (.error _, held) => some (⟨held, s.handles⟩, [])
      else none

/-- The raw key is in the map. -/
def Holds (held : σ) (place : κ) (raw : Str) : Prop :=
  ∃ table, api.content held place = some table ∧ raw ∈ table

/-- A put that succeeds adds its raw key to the map of the handle. -/
def Adds (held : σ) (store : η) (raw : Str)
    (outcome : Except StoreError Unit × σ) : Prop :=
  (∀ e, outcome.1 = .error e → outcome.2 = held) ∧
    (outcome.1 = .ok () → (api.content held (api.place store)).isSome →
      (∀ place other, api.Holds outcome.2 place other ↔
        api.Holds held place other ∨ place = api.place store ∧ other = raw) ∧
      ∀ place, (api.content held place).isSome →
        (api.content outcome.2 place).isSome)

/-- What the calls do to the maps. -/
structure Lawful : Prop where
  create : ∀ engine held name keyPrefix,
    (∀ store, (api.create engine held name keyPrefix).1 = .ok store →
      (api.content (api.create engine held name keyPrefix).2
        (api.place store)).isSome) ∧
    (∀ place raw, api.Holds (api.create engine held name keyPrefix).2 place raw ↔
      api.Holds held place raw) ∧
    ∀ place, (api.content held place).isSome →
      (api.content (api.create engine held name keyPrefix).2 place).isSome
  put : ∀ engine held store key data, api.Adds held store (api.rawKey store key)
    (api.put engine held store key data)
  putState : ∀ engine held store data, api.Adds held store (api.stateKey store)
    (api.putState engine held store data)

/-- Every handle has a map, and the maps hold what was put into them. -/
structure Recorded (s : Opened σ η) (seen : List (κ × Str)) : Prop where
  opened : ∀ store ∈ s.handles, (api.content s.held (api.place store)).isSome
  keys : ∀ place raw, api.Holds s.held place raw ↔ (place, raw) ∈ seen

variable {api}

omit [DecidableEq η] in
/-- A put through a handle is recorded. -/
theorem Recorded.adds {s : Opened σ η} {seen : List (κ × Str)}
    (h : api.Recorded s seen) {store : η} (hstore : store ∈ s.handles) {raw : Str}
    {outcome : Except StoreError Unit × σ} (hadds : api.Adds s.held store raw outcome) :
    (outcome.1 = .ok () → api.Recorded ⟨outcome.2, s.handles⟩
      (seen ++ [(api.place store, raw)])) ∧
    ∀ e, outcome.1 = .error e → api.Recorded ⟨outcome.2, s.handles⟩ seen := by
  constructor
  · intro hok
    obtain ⟨hkeys, hkept⟩ := hadds.2 hok (h.opened store hstore)
    refine ⟨fun other hother => hkept _ (h.opened other hother), ?_⟩
    intro place other
    rw [hkeys, h.keys]
    simp
  · intro e herror
    rw [hadds.1 e herror]
    exact ⟨h.opened, h.keys⟩

omit [DecidableEq η] in
/-- The map of a handle, with what was put into it. -/
theorem Recorded.exists_table {s : Opened σ η} {seen : List (κ × Str)}
    (h : api.Recorded s seen) {store : η} (hstore : store ∈ s.handles) :
    ∃ table, api.content s.held (api.place store) = some table ∧
      ∀ raw, raw ∈ table ↔ (api.place store, raw) ∈ seen := by
  obtain ⟨table, htable⟩ := Option.isSome_iff_exists.mp (h.opened store hstore)
  refine ⟨table, htable, fun raw => ?_⟩
  rw [← h.keys (api.place store) raw]
  simp [Holds, htable]

omit [DecidableEq η] in
/-- The step of a putting call, whatever it puts. -/
theorem Recorded.puts {s t : Opened σ η} {seen o : List (κ × Str)}
    (h : api.Recorded s seen) {store : η} (hstore : store ∈ s.handles) {raw : Str}
    {outcome : Except StoreError Unit × σ}
    (hstep : (match outcome with
      | (.ok (), held) => some (⟨held, s.handles⟩, [(api.place store, raw)])
      | (.error _, held) => some (⟨held, s.handles⟩, [])) = some (t, o))
    (hadds : api.Adds s.held store raw outcome) :
    api.Recorded t (seen ++ o) := by
  obtain ⟨hok, herror⟩ := h.adds hstore hadds
  obtain ⟨result, held⟩ := outcome
  cases result with
  | ok =>
      cases hstep
      exact hok rfl
  | error e =>
      cases hstep
      simpa using herror e rfl

theorem Recorded.step (hlaw : api.Lawful) {s t : Opened σ η}
    {seen o : List (κ × Str)} {call : PutCall η ε} (h : api.Recorded s seen)
    (hstep : api.step s call = some (t, o)) : api.Recorded t (seen ++ o) := by
  cases call with
  | create engine name keyPrefix =>
      obtain ⟨hcreated, hkeys, hkept⟩ := hlaw.create engine s.held name keyPrefix
      generalize hout : api.create engine s.held name keyPrefix = out at *
      obtain ⟨result, held⟩ := out
      have hkeys' : ∀ place raw, api.Holds held place raw ↔ (place, raw) ∈ seen :=
        fun place raw => (hkeys place raw).trans (h.keys place raw)
      simp only [PutCalls.step, hout] at hstep
      cases result with
      | ok store =>
          cases hstep
          rw [List.append_nil]
          refine ⟨?_, hkeys'⟩
          intro other hother
          rcases List.mem_cons.mp hother with rfl | hother
          · exact hcreated _ rfl
          · exact hkept _ (h.opened other hother)
      | error e =>
          cases hstep
          rw [List.append_nil]
          exact ⟨fun other hother => hkept _ (h.opened other hother), hkeys'⟩
  | put engine store key data =>
      by_cases hstore : store ∈ s.handles
      · simp only [PutCalls.step, hstore, if_true] at hstep
        exact h.puts hstore hstep (hlaw.put engine s.held store key data)
      · simp [PutCalls.step, hstore] at hstep
  | putState engine store data =>
      by_cases hstore : store ∈ s.handles
      · simp only [PutCalls.step, hstore, if_true] at hstep
        exact h.puts hstore hstep (hlaw.putState engine s.held store data)
      · simp [PutCalls.step, hstore] at hstep

/-- In every run from empty maps, the maps hold what was put. -/
theorem recorded_of_execute (hlaw : api.Lawful) {start : σ}
    (hstart : ∀ place, api.content start place = none)
    {calls : List (PutCall η ε)} {s : Opened σ η} {seen : List (κ × Str)}
    (hrun : execute api.step ⟨start, []⟩ calls = some (s, seen)) :
    api.Recorded s seen :=
  execute_history (G := fun _ _ => True) (P := api.Recorded)
    (fun _ _ _ _ _ h _ hstep => h.step hlaw hstep) []
    ⟨by simp, by simp [Holds, hstart]⟩ (stepsMeet_true _ calls) hrun

/-- The raw keys after an insertion into one of several maps. -/
theorem mem_update_insert [DecidableEq κ] {maps : κ → Option Table} {place : κ}
    {table : Table} (hplace : maps place = some table) (raw : Str) (data : Bytes)
    (other : κ) (key : Str) :
    (∃ t, Function.update maps place (some (table.insert raw data)) other = some t ∧
        key ∈ t) ↔
      (∃ t, maps other = some t ∧ key ∈ t) ∨ other = place ∧ key = raw := by
  have hinsert : key ∈ table.insert raw data ↔ key ∈ table ∨ key = raw := by
    rw [Std.ExtTreeMap.mem_insert, Std.LawfulEqOrd.compare_eq_iff_eq, eq_comm,
      or_comm]
  by_cases heq : other = place
  · subst heq
    simp [hplace, hinsert]
  · simp [heq]

theorem isSome_update [DecidableEq κ] {maps : κ → Option Table} {place other : κ}
    {table : Table} (h : (maps other).isSome) :
    (Function.update maps place (some table) other).isSome := by
  by_cases heq : other = place
  · simp [heq]
  · simpa [Function.update_of_ne heq] using h

/-- A new map is empty. -/
theorem mem_update_empty [DecidableEq κ] {maps : κ → Option Table} {place : κ}
    (hplace : maps place = none) (other : κ) (key : Str) :
    (∃ t, Function.update maps place (some ∅) other = some t ∧ key ∈ t) ↔
      ∃ t, maps other = some t ∧ key ∈ t := by
  by_cases heq : other = place
  · subst heq
    simp [hplace]
  · simp [Function.update_of_ne heq]

end PutCalls

/-- The putting calls of the RocksDB backend. -/
def RocksDb.puts : PutCalls RocksDb RocksDbStore Str (Option String) where
  create engine db name keyPrefix := db.createStore engine name keyPrefix
  put engine db store key data :=
    RocksDbStore.Collection.put db engine store key data
  putState engine db store data := RocksDbStore.State.put db engine store data
  content := RocksDb.families
  place := RocksDbStore.name
  rawKey := RocksDbStore.rawKey
  stateKey := RocksDbStore.keyPrefix

/-- The putting calls of the memory backend, which has no engine to fail. -/
def MemoryManager.puts : PutCalls MemoryManager MemoryStore (Str × Str) Unit where
  create _ manager name keyPrefix := manager.createStore name keyPrefix
  put _ manager store key data :=
    MemoryStore.Collection.put manager store key data
  putState _ manager store data := MemoryStore.State.put manager store data
  content := MemoryManager.data
  place store := (store.name, store.keyPrefix)
  rawKey := MemoryStore.rawKey
  stateKey := MemoryStore.keyPrefix

namespace RocksDb

theorem adds_writeRaw (db : RocksDb) (engine : Option String)
    (store : RocksDbStore) (raw : Str) (data : Bytes) :
    puts.Adds db store raw
      (store.writeRaw db engine fun family => family.insert raw data) := by
  unfold RocksDbStore.writeRaw PutCalls.Adds PutCalls.Holds
  cases hfamily : db.families store.name with
  | none => simp
  | some family =>
      cases engine with
      | some e => simp
      | none =>
          refine ⟨by simp, fun _ _ => ⟨?_, ?_⟩⟩
          · simpa [puts, update, hfamily] using
              PutCalls.mem_update_insert hfamily raw data
          · intro place hplace
            simpa [puts, update, hfamily] using PutCalls.isSome_update hplace

theorem puts_lawful : puts.Lawful where
  create engine db name keyPrefix := by
    show (∀ store, (db.createStore engine name keyPrefix).1 = .ok store → _) ∧ _
    unfold PutCalls.Holds
    simp only [puts, createStore]
    cases hfamily : db.families name with
    | some family =>
        refine ⟨fun store hstore => ?_, fun _ _ => Iff.rfl, fun _ h => h⟩
        cases hstore
        simp [hfamily]
    | none =>
        cases engine with
        | some e => exact ⟨by simp, fun _ _ => Iff.rfl, fun _ h => h⟩
        | none =>
            refine ⟨fun store hstore => ?_, PutCalls.mem_update_empty hfamily,
              fun _ h => PutCalls.isSome_update h⟩
            cases hstore
            simp
  put engine db store key data := adds_writeRaw db engine store _ data
  putState engine db store data := adds_writeRaw db engine store _ data

end RocksDb

namespace MemoryManager

theorem adds_putRaw (manager : MemoryManager) (store : MemoryStore) (raw : Str)
    (data : Bytes) :
    puts.Adds manager store raw (store.putRaw manager raw data) := by
  refine ⟨by simp [MemoryStore.putRaw], fun _ hplace => ?_⟩
  obtain ⟨table, htable⟩ := Option.isSome_iff_exists.mp hplace
  have hcontent : manager.content store = table := by
    simp only [puts] at htable
    simp [content, htable]
  unfold PutCalls.Holds
  refine ⟨?_, fun place h => ?_⟩
  · simpa [puts, MemoryStore.putRaw, setContent, hcontent] using
      PutCalls.mem_update_insert htable raw data
  · simpa [puts, MemoryStore.putRaw, setContent] using PutCalls.isSome_update h

theorem puts_lawful : puts.Lawful where
  create _ manager name keyPrefix := by
    unfold PutCalls.Holds
    simp only [puts, createStore]
    cases hdata : manager.data (name, keyPrefix) with
    | some table =>
        refine ⟨fun store hstore => ?_, fun _ _ => Iff.rfl, fun _ h => h⟩
        cases hstore
        simp [hdata]
    | none =>
        refine ⟨fun store hstore => ?_, PutCalls.mem_update_empty hdata,
          fun _ h => PutCalls.isSome_update h⟩
        cases hstore
        simp
  put _ manager store key data := adds_putRaw manager store _ data
  putState _ manager store data := adds_putRaw manager store _ data

/-- What is put into a map begins with its prefix, and goes on with the separator
unless it is the value of the state. -/
theorem put_shape {calls : List (PutCall MemoryStore Unit)} {start : MemoryManager}
    {s : Opened MemoryManager MemoryStore} {seen : List ((Str × Str) × Str)}
    (hrun : execute puts.step ⟨start, []⟩ calls = some (s, seen)) :
    ∀ x ∈ seen, x.2 = x.1.2 ∨ ∃ key, x.2 = x.1.2 ++ '.' :: key := by
  refine execute_observations (I := fun _ => True) ?_ trivial hrun
  intro s call t o _ hstep
  refine ⟨trivial, fun x hx => ?_⟩
  cases call with
  | create engine name keyPrefix =>
      simp only [PutCalls.step] at hstep
      split at hstep <;> cases hstep <;> simp at hx
  | put engine store key data =>
      simp only [PutCalls.step] at hstep
      split at hstep
      · split at hstep <;> cases hstep
        · rw [List.mem_singleton.mp hx]
          exact Or.inr ⟨key, rfl⟩
        · simp at hx
      · contradiction
  | putState engine store data =>
      simp only [PutCalls.step] at hstep
      split at hstep
      · split at hstep <;> cases hstep
        · rw [List.mem_singleton.mp hx]
          exact Or.inl rfl
        · simp at hx
      · contradiction

/-- A raw key that was put is cut in the wrong place only for a state. -/
theorem miscut_iff_of_put {calls : List (PutCall MemoryStore Unit)}
    {start : MemoryManager} {s : Opened MemoryManager MemoryStore}
    {seen : List ((Str × Str) × Str)}
    (hrun : execute puts.step ⟨start, []⟩ calls = some (s, seen))
    {place : Str × Str} {raw : Str} (hput : (place, raw) ∈ seen) :
    Miscut place.2 raw ↔ raw = place.2 := by
  constructor
  · intro hcut
    rcases put_shape hrun _ hput with hself | ⟨key, hsep⟩
    · exact hself
    · simp only at hsep
      subst hsep
      exact absurd hcut (not_miscut_separator place.2 key)
  · exact fun heq => miscut_iff.mpr (Or.inl heq)

end MemoryManager

/-- **When iteration panics.**  Let any calls have put something through handles
with any names and prefixes.  A RocksDB iterator does not panic if and only if
no raw key of its family is its prefix or goes on after it with a character of
more than one byte; a memory iterator does not panic if and only if no state of
its name and prefix was put. -/
theorem iteration_never_panics_iff
    (calls : List (PutCall RocksDbStore (Option String)))
    (memoryCalls : List (PutCall MemoryStore Unit)) :
    (∀ s seen,
      execute RocksDb.puts.step ⟨⟨fun _ => none⟩, []⟩ calls = some (s, seen) →
      ∀ store ∈ s.handles,
        ((∀ reverse,
            none ∉ RocksDbStore.Collection.iter s.held store reverse) ↔
          ∀ raw, (store.name, raw) ∈ seen → raw ≠ store.keyPrefix ∧
            ∀ c t, raw = store.keyPrefix ++ c :: t → c.utf8Size = 1)) ∧
    ∀ s seen,
      execute MemoryManager.puts.step ⟨.new, []⟩ memoryCalls = some (s, seen) →
      ∀ store ∈ s.handles,
        ((∀ reverse,
            MemoryStore.Collection.iter s.held store reverse ≠ .error .panic) ↔
          ((store.name, store.keyPrefix), store.keyPrefix) ∉ seen) := by
  refine ⟨fun s seen hrun store hstore => ?_, fun s seen hrun store hstore => ?_⟩
  · have hrecorded := PutCalls.recorded_of_execute RocksDb.puts_lawful
      (fun _ => rfl) hrun
    obtain ⟨family, hfamily, hkeys⟩ := hrecorded.exists_table hstore
    simp only [RocksDb.puts] at hfamily hkeys
    simp only [RocksDbStore.Collection.iter, hfamily, none_mem_items_iff, hkeys,
      forall_const, not_exists, not_and, not_miscut_iff]
  · have hrecorded := PutCalls.recorded_of_execute MemoryManager.puts_lawful
      (fun _ => rfl) hrun
    obtain ⟨table, htable, hkeys⟩ := hrecorded.exists_table hstore
    simp only [MemoryManager.puts] at htable hkeys
    have hcontent : s.held.content store = table := by
      simp [MemoryManager.content, htable]
    simp only [ne_eq, iter_eq_panic_iff, hcontent, hkeys, forall_const]
    rw [not_iff_not]
    constructor
    · rintro ⟨raw, hraw, hcut⟩
      rw [(MemoryManager.miscut_iff_of_put hrun hraw).mp hcut] at hraw
      exact hraw
    · exact fun hmem => ⟨store.keyPrefix, hmem, miscut_iff.mpr (Or.inl rfl)⟩

/-- A collection and a state with the name and the prefix `p`, both written. -/
def sharedPrefix {η ε : Type} (engine : ε) (store : η) : List (PutCall η ε) :=
  [.create engine ['p'] ['p'], .put engine store ['k'] [1],
    .create engine ['p'] ['p'], .putState engine store [2]]

/-- Two collections of a family: the second prefix goes on with `é`. -/
def accentedPrefix : List (PutCall RocksDbStore (Option String)) :=
  [.create none ['n'] ['a'], .create none ['n'] ['a', 'é'],
    .put none ⟨['n'], ['a', 'é']⟩ ['k'] [1]]

/-- `iteration_never_panics_iff` for the collection `p`, before the state is
written. -/
theorem written_collection_iterates :
    (∀ s seen, execute RocksDb.puts.step ⟨⟨fun _ => none⟩, []⟩
        ((sharedPrefix none ⟨['p'], ['p']⟩).take 3) = some (s, seen) →
      ∀ reverse,
        none ∉ RocksDbStore.Collection.iter s.held ⟨['p'], ['p']⟩ reverse) ∧
    ∀ s seen, execute MemoryManager.puts.step ⟨.new, []⟩
        ((sharedPrefix () ⟨['p'], ['p']⟩).take 3) = some (s, seen) →
      ∀ reverse, MemoryStore.Collection.iter s.held ⟨['p'], ['p']⟩ reverse ≠
        .error .panic := by
  constructor
  · rintro s seen hrun
    refine ((iteration_never_panics_iff _ []).1 s seen hrun ⟨['p'], ['p']⟩ ?_).mpr ?_
    · cases hrun
      decide
    · cases hrun
      intro raw hraw
      obtain rfl : raw = ['p', '.', 'k'] := by
        simpa [RocksDb.puts, RocksDbStore.rawKey] using hraw
      refine ⟨by decide, fun c t heq => ?_⟩
      obtain ⟨rfl, -⟩ : '.' = c ∧ ['k'] = t := by simpa using heq
      rfl
  · rintro s seen hrun
    refine ((iteration_never_panics_iff [] _).2 s seen hrun ⟨['p'], ['p']⟩ ?_).mpr ?_
    · cases hrun
      decide
    · cases hrun
      decide

/-- With the state written both iterators of the collection panic, and so does a
RocksDB iterator that cuts into a character. -/
theorem sharedPrefix_panics :
    (execute RocksDb.puts.step ⟨⟨fun _ => none⟩, []⟩
        (sharedPrefix none ⟨['p'], ['p']⟩)).map (fun p =>
          RocksDbStore.Collection.iter p.1.held ⟨['p'], ['p']⟩ false) =
        some [none, some (['k'], [1])] ∧
      (execute RocksDb.puts.step ⟨⟨fun _ => none⟩, []⟩ accentedPrefix).map
          (fun p => RocksDbStore.Collection.iter p.1.held ⟨['n'], ['a']⟩ false) =
        some [none] ∧
      (execute MemoryManager.puts.step ⟨.new, []⟩
        (sharedPrefix () ⟨['p'], ['p']⟩)).map (fun p =>
          MemoryStore.Collection.iter p.1.held ⟨['p'], ['p']⟩ false) =
        some (.error .panic) ∧
      (¬ ∀ calls s seen,
        execute RocksDb.puts.step ⟨⟨fun _ => none⟩, []⟩ calls = some (s, seen) →
        ∀ store ∈ s.handles, ∀ reverse,
          none ∉ RocksDbStore.Collection.iter s.held store reverse) ∧
      ¬ ∀ calls s seen,
        execute MemoryManager.puts.step ⟨.new, []⟩ calls = some (s, seen) →
        ∀ store ∈ s.handles, ∀ reverse,
          MemoryStore.Collection.iter s.held store reverse ≠ .error .panic := by
  refine ⟨by decide, by decide, rfl, fun hall => ?_, fun hall => ?_⟩
  · exact hall (sharedPrefix none ⟨['p'], ['p']⟩) _ _ rfl ⟨['p'], ['p']⟩
      (by decide) false (by decide)
  · exact hall (sharedPrefix () ⟨['p'], ['p']⟩) _ _ rfl ⟨['p'], ['p']⟩
      (by decide) false rfl

end Database
end Rush
