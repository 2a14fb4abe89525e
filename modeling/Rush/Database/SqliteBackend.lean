import Rush.Database.BackendSpec
import Rush.Database.Sqlite

/-!
# The SQLite backend refines its specification

The prefix is a column of the primary key, so a row belongs to one private map,
and the selected rows of a prefix, which have different numbers, are strictly
ordered by them.
-/

namespace Rush
namespace Database

open Foundation

/-- The collections of one table in SQLite, no statement of which fails. -/
def SqliteDb.collectionsOf (overflowChecks : Bool) (name : Str) :
    Backend SqliteDb Str CollectionQuery CollectionAnswer where
  create db p :=
    let (result, db) := db.createCollection none name p
    (result.map fun _ => (), db)
  get db p key := SqliteCollection.Collection.get db none ⟨name, p⟩ key
  put db p key data := SqliteCollection.Collection.put db none ⟨name, p⟩ key data
  del db p key := SqliteCollection.Collection.del db none ⟨name, p⟩ key
  purge db p := SqliteCollection.Collection.purge db none ⟨name, p⟩
  read db p :=
    Collection.answer overflowChecks fun reverse =>
      .ok (SqliteCollection.Collection.iter db none ⟨name, p⟩ reverse)

/-- The states of one table in SQLite, no statement of which fails. -/
def SqliteDb.statesOf (name : Str) : Backend SqliteDb Unit Empty Empty where
  create db p :=
    let (result, db) := db.createState none name p
    (result.map fun _ => (), db)
  get db p _ := SqliteCollection.State.get db none ⟨name, p⟩
  put db p _ data := SqliteCollection.State.put db none ⟨name, p⟩ data
  del db p _ := SqliteCollection.State.del db none ⟨name, p⟩
  purge db p := SqliteCollection.State.purge db none ⟨name, p⟩
  read _ _ query := query

/-- The collections of one table in SQLite, every statement on which ends as `engine`
says: the name of the table goes unquoted into the statements, and SQLite refuses
those whose name is no identifier. -/
def SqliteDb.collectionsUnder (engine : Option String) (overflowChecks : Bool)
    (name : Str) : Backend SqliteDb Str CollectionQuery CollectionAnswer where
  create db p :=
    let (result, db) := db.createCollection engine name p
    (result.map fun _ => (), db)
  get db p key := SqliteCollection.Collection.get db engine ⟨name, p⟩ key
  put db p key data := SqliteCollection.Collection.put db engine ⟨name, p⟩ key data
  del db p key := SqliteCollection.Collection.del db engine ⟨name, p⟩ key
  purge db p := SqliteCollection.Collection.purge db engine ⟨name, p⟩
  read db p :=
    Collection.answer overflowChecks fun reverse =>
      .ok (SqliteCollection.Collection.iter db engine ⟨name, p⟩ reverse)

/-- The states of one table in SQLite, every statement on which ends as `engine`
says. -/
def SqliteDb.statesUnder (engine : Option String) (name : Str) :
    Backend SqliteDb Unit Empty Empty where
  create db p :=
    let (result, db) := db.createState engine name p
    (result.map fun _ => (), db)
  get db p _ := SqliteCollection.State.get db engine ⟨name, p⟩
  put db p _ data := SqliteCollection.State.put db engine ⟨name, p⟩ data
  del db p _ := SqliteCollection.State.del db engine ⟨name, p⟩
  purge db p := SqliteCollection.State.purge db engine ⟨name, p⟩
  read _ _ query := query

namespace SqliteDb

variable {db : SqliteDb} {name : Str}

open SqliteCollection.Collection (orderBySn)

section OrderBy

variable (reverse : Bool)

instance : Std.Total fun a b => ((orderBySn reverse a b).isLE : Prop) where
  total := by
    intro a b
    have htotal : ∀ k l : Str, (compare k l).isLE ∨ (compare l k).isLE := by
      intro k l
      by_cases h : (compare k l).isLE
      · exact Or.inl h
      · exact Or.inr (by simp [Std.OrientedCmp.lt_of_not_isLE h])
    cases reverse with
    | false => exact htotal a.1.2 b.1.2
    | true => exact htotal b.1.2 a.1.2

instance : IsTrans ((Str × Str) × Bytes)
    fun a b => ((orderBySn reverse a b).isLE : Prop) where
  trans := by
    intro a b c hab hbc
    cases reverse with
    | false => exact @Std.TransCmp.isLE_trans _ compare _ _ _ _ hab hbc
    | true => exact @Std.TransCmp.isLE_trans _ compare _ _ _ _ hbc hab

/-- Rows with different numbers that are ordered are strictly ordered. -/
theorem orderBySn_eq_lt {a b : (Str × Str) × Bytes}
    (hle : (orderBySn reverse a b).isLE) (hne : a.1.2 ≠ b.1.2) :
    orderBySn reverse a b = .lt := by
  rcases Ordering.isLE_iff_eq_lt_or_eq_eq.mp hle with hlt | heq
  · exact hlt
  · cases reverse with
    | false => exact absurd (Std.LawfulEqOrd.eq_of_compare heq) hne
    | true => exact absurd (Std.LawfulEqOrd.eq_of_compare heq).symm hne

/-- A list of the entries of a table that is strictly ordered in one direction
is their enumeration in this direction. -/
theorem eq_entries_of_pairwise {table : Table} {items : List (Str × Bytes)}
    (hmem : ∀ key value, (key, value) ∈ items ↔ table[key]? = some value)
    (hsorted : items.Pairwise fun a b =>
      (if reverse then compare b.1 a.1 else compare a.1 b.1) = .lt) :
    items = table.entries reverse := by
  unfold Table.entries
  cases reverse with
  | false => exact (toList_eq_of_ascending hsorted hmem).symm
  | true =>
      have hascending : Ascending compare items.reverse :=
        List.pairwise_reverse.mpr hsorted
      have hlist : table.toList = items.reverse :=
        toList_eq_of_ascending hascending (by simpa using hmem)
      simp [hlist]

/-- The query of `make_iter`. -/
def selectPrefix (rows : KeyedRows (Str × Str) Bytes) (p : Str) :
    List ((Str × Str) × Bytes) :=
  rows.select (fun row => decide (row.1 = p))
    fun a b => (orderBySn reverse a b).isLE

variable {rows : KeyedRows (Str × Str) Bytes} {p : Str}

theorem mem_selectPrefix_iff {row : (Str × Str) × Bytes} :
    row ∈ selectPrefix reverse rows p ↔
      row.1.1 = p ∧ rows.find? row.1 = some row.2 := by
  unfold selectPrefix
  rw [KeyedRows.mem_select_iff, decide_eq_true_eq]

theorem pairwise_selectPrefix :
    (selectPrefix reverse rows p).Pairwise fun a b =>
      orderBySn reverse a b = .lt := by
  have hsorted := rows.pairwise_select (fun row => decide (row.1 = p))
    fun a b => ((orderBySn reverse a b).isLE : Prop)
  refine hsorted.imp_of_mem ?_
  intro a b ha hb hab
  have hprefix : a.1.1 = b.1.1 :=
    ((mem_selectPrefix_iff reverse).mp ha).1.trans
      ((mem_selectPrefix_iff reverse).mp hb).1.symm
  apply orderBySn_eq_lt reverse hab.1
  intro hsn
  exact hab.2 (Prod.ext hprefix hsn)

/-- The selected rows of a prefix are its private map in order. -/
theorem map_selectPrefix {table : Table}
    (h : ∀ key, rows.find? (p, key) = table[key]?) :
    (selectPrefix reverse rows p).map (fun row => (row.1.2, row.2)) =
      table.entries reverse := by
  apply eq_entries_of_pairwise reverse
  · intro key value
    rw [← h key, List.mem_map]
    constructor
    · intro hmem
      obtain ⟨⟨⟨q, sn⟩, data⟩, hrow, heq⟩ := hmem
      obtain ⟨rfl, hfind⟩ := (mem_selectPrefix_iff reverse).mp hrow
      obtain ⟨rfl, rfl⟩ := Prod.mk.inj heq
      exact hfind
    · intro hfind
      exact ⟨((p, key), value),
        (mem_selectPrefix_iff reverse).mpr ⟨rfl, hfind⟩, rfl⟩
  · rw [List.pairwise_map]
    exact pairwise_selectPrefix reverse

end OrderBy

/-- The rows of the table are the entries of the private maps; before the first
handle there is no table. -/
def HoldsCollections (name : Str) (db : SqliteDb) (ps : List Str)
    (ns : Namespaces) : Prop :=
  (∃ rows, db.collections name = some rows ∧
    ∀ p key, rows.find? (p, key) = (ns p)[key]?) ∨
  (db.collections name = none ∧ ps = [] ∧ ns = Namespaces.empty)

theorem HoldsCollections.rows {ps : List Str} {ns : Namespaces} {p : Str}
    (h : HoldsCollections name db ps ns) (hp : p ∈ ps) :
    ∃ rows, db.collections name = some rows ∧
      ∀ p key, rows.find? (p, key) = (ns p)[key]? := by
  rcases h with hrows | ⟨-, rfl, -⟩
  · exact hrows
  · simp at hp

/-- A statement on an existing table is carried out. -/
theorem collectionRun_eq {p : Str} {rows : KeyedRows (Str × Str) Bytes}
    (hrows : db.collections name = some rows) (failed : String → StoreError)
    (f : KeyedRows (Str × Str) Bytes → KeyedRows (Str × Str) Bytes) :
    SqliteCollection.Collection.run db none ⟨name, p⟩ failed f =
      (.ok (), { db with
        collections := Function.update db.collections name (some (f rows)) }) := by
  simp [SqliteCollection.Collection.run, rowsOf, hrows]

theorem HoldsCollections.update {ps : List Str} {ns : Namespaces}
    {rows : KeyedRows (Str × Str) Bytes}
    (hlookup : ∀ p key, rows.find? (p, key) = (ns p)[key]?) :
    HoldsCollections name { db with
      collections := Function.update db.collections name (some rows) } ps ns :=
  Or.inl ⟨rows, Function.update_self _ _ _, hlookup⟩

section Lookup

variable {rows : KeyedRows (Str × Str) Bytes} {ns : Namespaces}

theorem find?_insertOrReplace_own
    (hlookup : ∀ p key, rows.find? (p, key) = (ns p)[key]?) (p key : Str)
    (data : Bytes) (q k : Str) :
    (rows.insertOrReplace (p, key) data).find? (q, k) =
      (Function.update ns p ((ns p).insert key data) q)[k]? := by
  rw [KeyedRows.find?_insertOrReplace, hlookup q k]
  by_cases hq : q = p
  · subst hq
    rw [Function.update_self, getElem?_insert_eq]
    simp
  · rw [Function.update_of_ne hq]
    simp [hq]

theorem find?_deleteWhere_key
    (hlookup : ∀ p key, rows.find? (p, key) = (ns p)[key]?) (p key q k : Str) :
    (rows.deleteWhere fun row => decide (row = (p, key))).find? (q, k) =
      (Function.update ns p ((ns p).erase key) q)[k]? := by
  rw [KeyedRows.find?_deleteWhere, hlookup q k]
  by_cases hq : q = p
  · subst hq
    rw [Function.update_self, getElem?_erase_eq]
    simp
  · rw [Function.update_of_ne hq]
    simp [hq]

theorem find?_deleteWhere_fst
    (hlookup : ∀ p key, rows.find? (p, key) = (ns p)[key]?) (p q k : Str) :
    (rows.deleteWhere fun row => decide (row.1 = p)).find? (q, k) =
      (Function.update ns p ∅ q)[k]? := by
  rw [KeyedRows.find?_deleteWhere, hlookup q k]
  by_cases hq : q = p
  · subst hq
    simp
  · simp [hq]

end Lookup

/-- **Collections in SQLite are private ordered maps.** -/
theorem collections_refines (overflowChecks : Bool) (name : Str) :
    Backend.Refines (SqliteDb.collectionsOf overflowChecks name)
      (Namespaces.collections overflowChecks) (HoldsCollections name) where
  create := by
    intro db ps ns p h
    refine ⟨rfl, rfl, ?_⟩
    show HoldsCollections name
      { db with collections := createTable db.collections name } (p :: ps) ns
    -- `CREATE TABLE IF NOT EXISTS`: the rows of other prefixes stay
    rcases h with ⟨rows, hrows, hlookup⟩ | ⟨hnone, -, rfl⟩
    · refine Or.inl ⟨rows, ?_, hlookup⟩
      simp [createTable, hrows]
    · refine Or.inl ⟨.empty, ?_, ?_⟩
      · simp [createTable, hnone]
      · simp [Namespaces.empty]
  get := by
    intro db ps ns p key h hp
    obtain ⟨rows, hrows, hlookup⟩ := h.rows hp
    show SqliteCollection.Collection.get db none ⟨name, p⟩ key = (ns p).get key
    cases hvalue : (ns p)[key]? <;>
      simp only [SqliteCollection.Collection.get, rowsOf, hrows,
        SqliteCollection.queryRow, hlookup p key, Table.get, hvalue]
  put := by
    intro db ps ns p key data h hp
    obtain ⟨rows, hrows, hlookup⟩ := h.rows hp
    show (SqliteCollection.Collection.put db none ⟨name, p⟩ key data).1 = _ ∧
      HoldsCollections name
        (SqliteCollection.Collection.put db none ⟨name, p⟩ key data).2 ps _
    unfold SqliteCollection.Collection.put
    rw [collectionRun_eq hrows]
    exact ⟨rfl, .update (find?_insertOrReplace_own hlookup p key data)⟩
  del := by
    intro db ps ns p key h hp
    obtain ⟨rows, hrows, hlookup⟩ := h.rows hp
    show (∀ data, _ →
        (SqliteCollection.Collection.del db none ⟨name, p⟩ key).1 = _) ∧
      HoldsCollections name
        (SqliteCollection.Collection.del db none ⟨name, p⟩ key).2 ps _
    unfold SqliteCollection.Collection.del
    rw [collectionRun_eq hrows]
    exact ⟨fun _ _ => rfl, .update (find?_deleteWhere_key hlookup p key)⟩
  purge := by
    intro db ps ns p h hp
    obtain ⟨rows, hrows, hlookup⟩ := h.rows hp
    show (SqliteCollection.Collection.purge db none ⟨name, p⟩).1 = _ ∧
      HoldsCollections name
        (SqliteCollection.Collection.purge db none ⟨name, p⟩).2 ps _
    unfold SqliteCollection.Collection.purge
    rw [collectionRun_eq hrows]
    exact ⟨rfl, .update (find?_deleteWhere_fst hlookup p)⟩
  read := by
    intro db ps ns p query h hp
    obtain ⟨rows, hrows, hlookup⟩ := h.rows hp
    -- the engine selects and orders what the map has in its own order
    have hiter : ∀ reverse,
        SqliteCollection.Collection.iter db none ⟨name, p⟩ reverse =
          (ns p).entries reverse := by
      intro reverse
      rw [← map_selectPrefix reverse (hlookup p)]
      simp [SqliteCollection.Collection.iter,
        SqliteCollection.Collection.makeIter, rowsOf, hrows, Except.map,
        selectPrefix]
    show Collection.answer overflowChecks (fun reverse => .ok
        (SqliteCollection.Collection.iter db none ⟨name, p⟩ reverse)) query = _
    simp only [hiter]
    rfl

/-- The rows of the table are the values of the states. -/
def HoldsStates (name : Str) (db : SqliteDb) (ps : List Str)
    (slots : Slots) : Prop :=
  (∃ rows, db.states name = some rows ∧ ∀ p, rows.find? p = slots p) ∨
  (db.states name = none ∧ ps = [] ∧ slots = fun _ => none)

theorem HoldsStates.rows {ps : List Str} {slots : Slots} {p : Str}
    (h : HoldsStates name db ps slots) (hp : p ∈ ps) :
    ∃ rows, db.states name = some rows ∧ ∀ p, rows.find? p = slots p := by
  rcases h with hrows | ⟨-, rfl, -⟩
  · exact hrows
  · simp at hp

theorem stateRun_eq {p : Str} {rows : KeyedRows Str Bytes}
    (hrows : db.states name = some rows) (failed : String → StoreError)
    (f : KeyedRows Str Bytes → KeyedRows Str Bytes) :
    SqliteCollection.State.run db none ⟨name, p⟩ failed f =
      (.ok (), { db with
        states := Function.update db.states name (some (f rows)) }) := by
  simp [SqliteCollection.State.run, rowsOf, hrows]

theorem HoldsStates.update {ps : List Str} {slots : Slots}
    {rows : KeyedRows Str Bytes} (hlookup : ∀ p, rows.find? p = slots p) :
    HoldsStates name { db with
      states := Function.update db.states name (some rows) } ps slots :=
  Or.inl ⟨rows, Function.update_self _ _ _, hlookup⟩

theorem find?_insertOrReplace_state {rows : KeyedRows Str Bytes} {slots : Slots}
    (hlookup : ∀ p, rows.find? p = slots p) (p : Str) (data : Bytes) (q : Str) :
    (rows.insertOrReplace p data).find? q =
      Function.update slots p (some data) q := by
  rw [KeyedRows.find?_insertOrReplace, hlookup q]
  by_cases hq : q = p <;> simp [hq]

/-- Both `del` and `purge` of a state delete the row of its prefix. -/
theorem find?_deleteWhere_state {rows : KeyedRows Str Bytes} {slots : Slots}
    (hlookup : ∀ p, rows.find? p = slots p) (p q : Str) :
    (rows.deleteWhere fun row => decide (row = p)).find? q =
      Function.update slots p none q := by
  rw [KeyedRows.find?_deleteWhere, hlookup q]
  by_cases hq : q = p <;> simp [hq]

/-- **States in SQLite are single values.** -/
theorem states_refines (name : Str) :
    Backend.Refines (SqliteDb.statesOf name) Slots.states (HoldsStates name) where
  create := by
    intro db ps slots p h
    refine ⟨rfl, rfl, ?_⟩
    show HoldsStates name { db with states := createTable db.states name }
      (p :: ps) slots
    rcases h with ⟨rows, hrows, hlookup⟩ | ⟨hnone, -, rfl⟩
    · refine Or.inl ⟨rows, ?_, hlookup⟩
      simp [createTable, hrows]
    · refine Or.inl ⟨.empty, ?_, fun _ => rfl⟩
      simp [createTable, hnone]
  get := by
    intro db ps slots p _ h hp
    obtain ⟨rows, hrows, hlookup⟩ := h.rows hp
    show SqliteCollection.State.get db none ⟨name, p⟩ = _
    cases hvalue : slots p <;>
      simp only [SqliteCollection.State.get, rowsOf, hrows,
        SqliteCollection.queryRow, hlookup p, Slots.states, hvalue]
  put := by
    intro db ps slots p _ data h hp
    obtain ⟨rows, hrows, hlookup⟩ := h.rows hp
    show (SqliteCollection.State.put db none ⟨name, p⟩ data).1 = _ ∧
      HoldsStates name
        (SqliteCollection.State.put db none ⟨name, p⟩ data).2 ps _
    unfold SqliteCollection.State.put
    rw [stateRun_eq hrows]
    exact ⟨rfl, .update (find?_insertOrReplace_state hlookup p data)⟩
  del := by
    intro db ps slots p _ h hp
    obtain ⟨rows, hrows, hlookup⟩ := h.rows hp
    show (∀ data, _ → (SqliteCollection.State.del db none ⟨name, p⟩).1 = _) ∧
      HoldsStates name (SqliteCollection.State.del db none ⟨name, p⟩).2 ps _
    unfold SqliteCollection.State.del
    rw [stateRun_eq hrows]
    exact ⟨fun _ _ => rfl, .update (find?_deleteWhere_state hlookup p)⟩
  purge := by
    intro db ps slots p h hp
    obtain ⟨rows, hrows, hlookup⟩ := h.rows hp
    show (SqliteCollection.State.purge db none ⟨name, p⟩).1 = _ ∧
      HoldsStates name (SqliteCollection.State.purge db none ⟨name, p⟩).2 ps _
    unfold SqliteCollection.State.purge
    rw [stateRun_eq hrows]
    exact ⟨rfl, .update (find?_deleteWhere_state hlookup p)⟩
  read := by
    intro db ps slots p query
    exact query.elim

end SqliteDb

end Database
end Rush
