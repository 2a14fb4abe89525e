import Rush.Persistence.CounterActor
import Rush.Persistence.ManagerRefinement

/-!
# One store on every manager

The memory manager, the SQLite manager and, for keys that do not begin with each
other, the RocksDB manager serve the stores of any number of actors.  So the
stores reply alike on all of them, and what holds of the stores over their own
tables holds on each.
-/

namespace Rush
namespace Persistence

open Foundation Database Actor

namespace ActorStores

variable {P E : Type} {pf : ActorPath → Platform P E}
  {password : ActorPath → Option Key}

/-- Nothing is stored. -/
def empty : ActorStores := start ⟨Namespaces.empty, fun _ => none⟩

/-- Requests of one actor are replied to by its session. -/
theorem replies_own (path : ActorPath) (requests : List (Request P E))
    (w : ActorStores) :
    (execute (step pf password) w (requests.map (Prod.mk path))).map Prod.snd =
      (execute (Session.step (pf path) (password path)) (w.session path)
        requests).map fun run => run.2.map (Prod.mk path) := by
  induction requests generalizing w with
  | nil => rfl
  | cons request requests ih =>
      rw [List.map_cons]
      unfold execute
      simp only [step]
      cases Session.step (pf path) (password path) (w.session path) request with
      | none => rfl
      | some next =>
          obtain ⟨session, own⟩ := next
          have hrest := ih (w.setSession path session)
          rw [session_setSession_self] at hrest
          simp only
          generalize execute (step pf password) _ _ = x at hrest ⊢
          generalize execute (Session.step _ _) session requests = y at hrest ⊢
          cases x with
          | none =>
              cases y with
              | none => rfl
              | some v => cases hrest
          | some u =>
              cases y with
              | none => cases hrest
              | some v =>
                  have hmore : u.2 = v.2.map (Prod.mk path) := Option.some.inj hrest
                  simp [hmore]

theorem map_filterMap_own {α : Type} (path : ActorPath)
    (xs : List (ActorPath × α)) {f : ActorPath × α → Option α}
    (hf : ∀ x, f x = if x.1 = path then some x.2 else none) :
    (xs.filterMap f).map (Prod.mk path) =
      xs.filter fun x => decide (x.1 = path) := by
  induction xs with
  | nil => rfl
  | cons x xs ih =>
      by_cases hx : x.1 = path
      · rw [List.filterMap_cons_some ((hf x).trans (if_pos hx)), List.map_cons, ih,
          List.filter_cons_of_pos (by simpa using hx), ← hx]
      · rw [List.filterMap_cons_none ((hf x).trans (if_neg hx)), ih,
          List.filter_cons_of_neg (by simpa using hx)]

/-- An actor whose key no other has is answered as if it were alone. -/
theorem execute_alone {path : ActorPath} {w : ActorStores}
    {inputs : List (ActorPath × Request P E)}
    {replies : List (ActorPath × Reply P E)}
    (hkeys : ∀ input ∈ inputs, input.1 ≠ path →
      storePrefix none path ≠ storePrefix none input.1)
    {v : ActorStores}
    (hrun : execute (step pf password) v inputs = some (w, replies)) :
    (execute (step pf password) v
        (inputs.filter fun input => decide (input.1 = path))).map Prod.snd =
      some (replies.filter fun reply => decide (reply.1 = path)) := by
  have hinputs : (inputs.filterMap (actor pf password path).input).map
      (Prod.mk path) = _ := map_filterMap_own path inputs fun _ => rfl
  have hreplies : (replies.filterMap (actor pf password path).observation).map
      (Prod.mk path) = _ := map_filterMap_own path replies fun _ => rfl
  rw [← hinputs, replies_own, replies_alone hkeys hrun, ← hreplies]
  rfl

end ActorStores

namespace ManagerStores

variable {σ P E : Type} {m : Manager σ} {pf : ActorPath → Platform P E}
  {password : ActorPath → Option Key} {overflowChecks : Bool} {Q : Set Str}
  {H : σ → List Str → Namespaces → Prop} {K : σ → List Str → Slots → Prop}

/-- What all stores reply from the start on. -/
def replies (m : Manager σ) (pf : ActorPath → Platform P E)
    (password : ActorPath → Option Key) (held : σ)
    (inputs : List (ActorPath × Request P E)) :
    Option (List (ActorPath × Reply P E)) :=
  (execute (step m pf password) (start held) inputs).map Prod.snd

/-- A manager with nothing stored replies as the tables do. -/
theorem replies_eq (hm : m.Serves overflowChecks Q H K) {held : σ}
    (hevents : H held [] Namespaces.empty) (hstates : K held [] fun _ => none)
    {inputs : List (ActorPath × Request P E)}
    (hkeys : ∀ input ∈ inputs, input.1.key ∈ Q) :
    replies m pf password held inputs =
      (execute (ActorStores.step pf password) .empty inputs).map Prod.snd := by
  have hstart : Holds H K (start held) .empty :=
    ⟨[], [], hevents, hstates, rfl, fun path hpath => by cases hpath⟩
  exact (execute_agree hm hstart hkeys).map_snd_eq

/-- The keys of the actors that a run is about. -/
def keys (inputs : List (ActorPath × Request P E)) : Set Str :=
  {p | ∃ input ∈ inputs, input.1.key = p}

section Managers

theorem memory_holdsNothing (name : Str) :
    MemoryManager.HoldsCollections (eventsTable name) MemoryManager.new []
        Namespaces.empty ∧
      MemoryManager.HoldsStates (statesTable name) MemoryManager.new [] fun _ => none :=
  ⟨fun p => Represents.empty {p},
    fun p raw => by simp [MemoryManager.new, MemoryManager.content]⟩

theorem sqlite_holdsNothing (name : Str) :
    SqliteDb.HoldsCollections (eventsTable name) SqliteDb.new [] Namespaces.empty ∧
      SqliteDb.HoldsStates (statesTable name) SqliteDb.new [] fun _ => none :=
  ⟨Or.inr ⟨rfl, rfl, rfl⟩, Or.inr ⟨rfl, rfl, rfl⟩⟩

variable (overflowChecks) (name : Str) (pf) (password)

theorem replies_memory (inputs : List (ActorPath × Request P E)) :
    replies (MemoryManager.manager overflowChecks name) pf password
        MemoryManager.new inputs =
      (execute (ActorStores.step pf password) .empty inputs).map Prod.snd :=
  replies_eq (MemoryManager.manager_serves overflowChecks name Set.univ)
    (memory_holdsNothing name).1 (memory_holdsNothing name).2 fun _ _ => trivial

theorem replies_sqlite (inputs : List (ActorPath × Request P E)) :
    replies (SqliteDb.manager overflowChecks name) pf password SqliteDb.new inputs =
      (execute (ActorStores.step pf password) .empty inputs).map Prod.snd :=
  replies_eq (SqliteDb.manager_serves overflowChecks name Set.univ)
    (sqlite_holdsNothing name).1 (sqlite_holdsNothing name).2 fun _ _ => trivial

theorem replies_rocksDb {db : RocksDb} (hevents : db.Unwritten (eventsTable name))
    (hstates : db.Unwritten (statesTable name))
    {inputs : List (ActorPath × Request P E)} {Q : Set Str} (hfree : PrefixFree Q)
    (hkeys : ∀ input ∈ inputs, input.1.key ∈ Q) :
    replies (RocksDb.manager overflowChecks name) pf password db inputs =
      (execute (ActorStores.step pf password) .empty inputs).map Prod.snd :=
  replies_eq (RocksDb.manager_serves overflowChecks name hfree)
    (.start hevents (Represents.empty Q)) (.start hstates (RocksDb.StoresSlots.empty Q))
    hkeys

end Managers

/-- **The database makes no difference.**  Over every run of the stores of any
number of actors on one manager, the memory manager and the SQLite manager give
all replies alike, and so does the RocksDB manager if no key of an actor is the
beginning of another one.  SQLite has to accept the names of the tables, and a
call that fails has to fail with the same error on each of them. -/
theorem replies_same_on_every_manager (overflowChecks : Bool) {name : Str}
    {refuses : Str → Option String} (haccepts : SqliteDb.Accepts refuses name)
    {db : RocksDb} (hevents : db.Unwritten (eventsTable name))
    (hstates : db.Unwritten (statesTable name)) (pf : ActorPath → Platform P E)
    (password : ActorPath → Option Key)
    (inputs : List (ActorPath × Request P E)) :
    replies (MemoryManager.manager overflowChecks name) pf password
        MemoryManager.new inputs =
      replies (SqliteDb.managerUnder refuses overflowChecks name) pf password
        SqliteDb.new inputs ∧
    (PrefixFree (keys inputs) →
      replies (RocksDb.manager overflowChecks name) pf password db inputs =
        replies (SqliteDb.managerUnder refuses overflowChecks name) pf password
          SqliteDb.new inputs) := by
  rw [SqliteDb.managerUnder_of_accepts haccepts, replies_memory, replies_sqlite]
  refine ⟨rfl, fun hfree => ?_⟩
  exact replies_rocksDb pf password overflowChecks name hevents hstates hfree
    fun input hinput => ⟨input, hinput, rfl⟩

/-- The part of one actor. -/
def own {α : Type} (path : ActorPath) (xs : List (ActorPath × α)) :
    List (ActorPath × α) :=
  xs.filter fun x => decide (x.1 = path)

/-- What is replied to the requests of one actor is replied when only these are
made. -/
def Alone (m : Manager σ) (pf : ActorPath → Platform P E)
    (password : ActorPath → Option Key) (held : σ) (path : ActorPath)
    (inputs : List (ActorPath × Request P E)) : Prop :=
  ∀ seen, replies m pf password held inputs = some seen →
    replies m pf password held (own path inputs) = some (own path seen)

/-- A manager that replies as the tables do keeps actors apart as these do. -/
theorem alone_of_replies_eq {held : σ} {path : ActorPath}
    {inputs : List (ActorPath × Request P E)}
    (hkeys : ∀ input ∈ inputs, input.1 ≠ path → path.key ≠ input.1.key)
    (hall : replies m pf password held inputs =
      (execute (ActorStores.step pf password) .empty inputs).map Prod.snd)
    (hown : replies m pf password held (own path inputs) =
      (execute (ActorStores.step pf password) .empty (own path inputs)).map
        Prod.snd) : Alone m pf password held path inputs := by
  intro seen hseen
  rw [hall] at hseen
  obtain ⟨⟨w, seen'⟩, hrun, rfl⟩ := Option.map_eq_some_iff.mp hseen
  rw [hown]
  exact ActorStores.execute_alone hkeys hrun

/-- **An actor with a key of its own is alone on every database.**  In every run
of the stores of any number of actors on one manager, an actor whose key no other
has is replied as in the run of its own requests on a manager of its own; on
RocksDB, if no key is the beginning of another one. -/
theorem alone_on_every_manager (overflowChecks : Bool) (name : Str)
    {db : RocksDb} (hevents : db.Unwritten (eventsTable name))
    (hstates : db.Unwritten (statesTable name)) (pf : ActorPath → Platform P E)
    (password : ActorPath → Option Key) {path : ActorPath}
    {inputs : List (ActorPath × Request P E)}
    (hkeys : ∀ input ∈ inputs, input.1 ≠ path → path.key ≠ input.1.key) :
    Alone (MemoryManager.manager overflowChecks name) pf password
        MemoryManager.new path inputs ∧
      Alone (SqliteDb.manager overflowChecks name) pf password SqliteDb.new path
        inputs ∧
      (PrefixFree (keys inputs) →
        Alone (RocksDb.manager overflowChecks name) pf password db path inputs) := by
  refine ⟨?_, ?_, fun hfree => ?_⟩
  · exact alone_of_replies_eq hkeys (replies_memory ..) (replies_memory ..)
  · exact alone_of_replies_eq hkeys (replies_sqlite ..) (replies_sqlite ..)
  · have hall : ∀ input ∈ inputs, input.1.key ∈ keys inputs :=
      fun input hinput => ⟨input, hinput, rfl⟩
    refine alone_of_replies_eq hkeys
      (replies_rocksDb pf password overflowChecks name hevents hstates hfree hall)
      (replies_rocksDb pf password overflowChecks name hevents hstates hfree ?_)
    exact fun input hinput => hall input (List.mem_of_mem_filter hinput)

end ManagerStores

namespace CounterActor

/-- Two actors with different keys that persist in turn. -/
def inTurn (path other : ActorPath) : List (ActorPath × Request UInt8 UInt8) :=
  [(path, ⟨env, .reopen⟩), (other, ⟨env, .reopen⟩),
    (path, ⟨env, .command (.persist 5)⟩), (other, ⟨env, .command (.persist 7)⟩),
    (path, ⟨env, .command .lastEvent⟩)]

def userA : ActorPath := ⟨["user".toList, "a".toList]⟩

def userB : ActorPath := ⟨["user".toList, "b".toList]⟩

/-- A database without column families. -/
def emptyRocksDb : RocksDb := ⟨fun _ => none⟩

theorem emptyRocksDb_unwritten (name : Str) : emptyRocksDb.Unwritten name := by
  intro family hfamily
  cases hfamily

theorem prefixFree_inTurn :
    PrefixFree (ManagerStores.keys (inTurn userA userB)) := by
  have hkey : ∀ p ∈ ManagerStores.keys (inTurn userA userB),
      p = "a".toList ∨ p = "b".toList := by
    rintro p ⟨input, hinput, rfl⟩
    simp only [inTurn, List.mem_cons, List.not_mem_nil, or_false] at hinput
    rcases hinput with rfl | rfl | rfl | rfl | rfl
    · exact Or.inl rfl
    · exact Or.inr rfl
    · exact Or.inl rfl
    · exact Or.inr rfl
    · exact Or.inl rfl
  intro p hp q hq hpq
  rcases hkey p hp with rfl | rfl <;> rcases hkey q hq with rfl | rfl
  · rfl
  · exact absurd hpq (by decide)
  · exact absurd hpq (by decide)
  · rfl

/-- What SQLite says of a table name that is no identifier. -/
def refusesNames (table : Str) : Option String :=
  if table.all fun c => c.isAlphanum || c == '_' then none
  else some "syntax error"

theorem inTurn_same_on_every_manager :
    ManagerStores.replies (RocksDb.manager false "store".toList)
        (fun _ => platform) (fun _ => none) emptyRocksDb (inTurn userA userB) =
      some [(userA, .created (.ok ())), (userB, .created (.ok ())),
        (userA, .answered (.persist 5) (.ok .persisted)),
        (userB, .answered (.persist 7) (.ok .persisted)),
        (userA, .answered .lastEvent (.ok (.lastEvent (some 5))))] := by
  obtain ⟨hmemory, hrocksDb⟩ :=
    ManagerStores.replies_same_on_every_manager false
      (show SqliteDb.Accepts refusesNames "store".toList from ⟨by decide, by decide⟩)
      (emptyRocksDb_unwritten _) (emptyRocksDb_unwritten _) (fun _ => platform)
      (fun _ => none) (inTurn userA userB)
  rw [hrocksDb prefixFree_inTurn, ← hmemory]
  decide +kernel

theorem inTurn_alone :
    ManagerStores.Alone (RocksDb.manager false "store".toList) (fun _ => platform)
      (fun _ => none) emptyRocksDb userA (inTurn userA userB) := by
  refine (ManagerStores.alone_on_every_manager false "store".toList
    (emptyRocksDb_unwritten _) (emptyRocksDb_unwritten _) (fun _ => platform)
    (fun _ => none) ?_).2.2 prefixFree_inTurn
  intro input hinput hne
  simp only [inTurn, List.mem_cons, List.not_mem_nil, or_false] at hinput
  rcases hinput with rfl | rfl | rfl | rfl | rfl
  · exact absurd rfl hne
  · decide
  · exact absurd rfl hne
  · decide
  · exact absurd rfl hne

end CounterActor

end Persistence
end Rush
