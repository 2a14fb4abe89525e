import Rush.Persistence.EveryManager

/-!
# When two actors are separated by their keys

`start_store` takes the last segment of the path as the prefix of a store.  On
the memory and the SQLite manager two actors are separated if and only if their
keys differ, and paths of different parents may have the same key.  RocksDB
takes a prefix for the beginning of a raw key: there neither key may be the
beginning of the other one.
-/

namespace Rush
namespace Persistence

open Foundation Database Actor

/-- A session has the memory that it is made of. -/
theorem Session.memory_over (tables : Tables) (memory : Option Memory) :
    (Session.over tables memory).memory = memory := by
  cases memory <;> rfl

theorem ActorStores.memory_session (w : ActorStores) (path : ActorPath) :
    (w.session path).memory = w.memory path :=
  Session.memory_over _ _

namespace ManagerStores

variable {σ P E : Type}

section Definitions

variable (m : Manager σ) (pf : ActorPath → Platform P E)
  (password : ActorPath → Option Key)

/-- Whatever an actor asks for next is replied as before, and no event of its
running store is lost or overwritten. -/
structure Undisturbed (w : ManagerStores σ) (path : ActorPath)
    (w' : ManagerStores σ) : Prop where
  replies : ∀ requests : List (Request P E),
    (execute (step m pf password) w' (requests.map (Prod.mk path))).map Prod.snd =
      (execute (step m pf password) w (requests.map (Prod.mk path))).map Prod.snd
  events : (w.memory path).isSome → ∀ (key : Str) (data : Bytes),
    m.events.get w.held (storePrefix none path) key = .ok data →
      m.events.get w'.held (storePrefix none path) key = .ok data

/-- In every run of the actors of `among`, no request of `other` disturbs
`path`. -/
def NeverDisturbs (held : σ) (among : Set ActorPath) (other path : ActorPath) :
    Prop :=
  ∀ (inputs : List (ActorPath × Request P E)) (w : ManagerStores σ)
    (replies : List (ActorPath × Reply P E)),
    (∀ input ∈ inputs, input.1 ∈ among) →
    execute (step m pf password) (start held) inputs = some (w, replies) →
    ∀ (request : Request P E) (w' : ManagerStores σ)
      (reply : List (ActorPath × Reply P E)),
      step m pf password w (other, request) = some (w', reply) →
      w.Undisturbed m pf password path w'

/-- Neither of two actors ever disturbs the other one. -/
def Separated (held : σ) (among : Set ActorPath) (path other : ActorPath) : Prop :=
  NeverDisturbs m pf password held among path other ∧
    NeverDisturbs m pf password held among other path

end Definitions

variable {m : Manager σ} {pf : ActorPath → Platform P E}
  {password : ActorPath → Option Key} {overflowChecks : Bool}

/-! ### Keys that a manager keeps apart -/

section Apart

variable {Q : Set Str} {H : σ → List Str → Namespaces → Prop}
  {K : σ → List Str → Slots → Prop}

/-- A request of another key leaves the session of an actor as it is, and so
everything that is replied from it. -/
theorem undisturbed_of_step (hm : m.Serves overflowChecks Q H K)
    {w w' : ManagerStores σ} {v : ActorStores} (h : Holds H K w v)
    {path other : ActorPath} (hpath : path.key ∈ Q) (hother : other.key ∈ Q)
    (hne : path.key ≠ other.key) {request : Request P E}
    {reply : List (ActorPath × Reply P E)}
    (hstep : step m pf password w (other, request) = some (w', reply)) :
    w.Undisturbed m pf password path w' := by
  have hagree : Agree (Holds H K) Eq (step m pf password w (other, request))
      (ActorStores.step pf password v (other, request)) :=
    step_agree hm h (other, request) hother
  rw [hstep] at hagree
  generalize hnext : ActorStores.step pf password v (other, request) = next
    at hagree
  cases hagree with
  | @taken _ v' _ reply' hafter _ =>
      have hsession : v'.session path = v.session path :=
        ActorStores.session_of_step hnext hne
      have hrequests : ∀ requests : List (Request P E),
          ∀ input ∈ requests.map (Prod.mk path), storePrefix none input.1 ∈ Q := by
        intro requests input hinput
        obtain ⟨request, -, rfl⟩ := List.mem_map.mp hinput
        exact hpath
      constructor
      · intro requests
        rw [(execute_agree hm hafter (hrequests requests)).map_snd_eq,
          (execute_agree hm h (hrequests requests)).map_snd_eq,
          ActorStores.replies_own, ActorStores.replies_own, hsession]
      · intro hopen key data hdata
        obtain ⟨ps, qs, hevents, -, hmemory, hopened⟩ := h
        obtain ⟨ps', qs', hevents', -, -, hopened'⟩ := hafter
        rw [hmemory] at hopen
        have hkept : v'.memory path = v.memory path := by
          rw [← v'.memory_session, hsession, v.memory_session]
        have htables : v'.storage.events (storePrefix none path) =
            v.storage.events (storePrefix none path) := by
          have heq := congrArg Session.tables hsession
          rw [v'.tables_session, v.tables_session] at heq
          exact congrArg Tables.events heq
        rw [hm.events.get key hevents (hopened path hopen).1] at hdata
        rw [hm.events.get key hevents' (hopened' path (hkept ▸ hopen)).1]
        simpa only [Namespaces.collections, htables] using hdata

theorem neverDisturbs_of_ne (hm : m.Serves overflowChecks Q H K) {held : σ}
    (hevents : H held [] Namespaces.empty) (hstates : K held [] fun _ => none)
    {among : Set ActorPath} (hamong : ∀ path ∈ among, path.key ∈ Q)
    {path other : ActorPath} (hpath : path ∈ among) (hother : other ∈ among)
    (hne : path.key ≠ other.key) :
    NeverDisturbs m pf password held among other path := by
  intro inputs w replies hinputs hrun request w' reply hstep
  have hstart : Holds H K (start held) .empty :=
    ⟨[], [], hevents, hstates, rfl, fun path hpath => by cases hpath⟩
  have hagree : Agree (Holds H K) Eq
      (execute (step m pf password) (start held) inputs)
      (execute (ActorStores.step pf password) .empty inputs) :=
    execute_agree hm hstart fun input hinput => hamong _ (hinputs input hinput)
  rw [hrun] at hagree
  generalize execute (ActorStores.step pf password) _ inputs = run at hagree
  cases hagree with
  | taken hheld _ =>
      exact undisturbed_of_step hm hheld (hamong path hpath) (hamong other hother)
        hne hstep

/-- **Keys that a manager keeps apart separate their actors.** -/
theorem separated_of_ne (hm : m.Serves overflowChecks Q H K) {held : σ}
    (hevents : H held [] Namespaces.empty) (hstates : K held [] fun _ => none)
    {among : Set ActorPath} (hamong : ∀ path ∈ among, path.key ∈ Q)
    {path other : ActorPath} (hpath : path ∈ among) (hother : other ∈ among)
    (hne : path.key ≠ other.key) :
    Separated m pf password held among path other :=
  ⟨neverDisturbs_of_ne hm hevents hstates hamong hother hpath hne.symm,
    neverDisturbs_of_ne hm hevents hstates hamong hpath hother hne⟩

end Apart

/-! ### A purge that takes another key's tables along -/

section Together

variable {Q : Set Str} {H : σ → List Str → Namespaces → Prop}
  {K : σ → List Str → Slots → Prop} {env : Env} {held : σ} {ps qs : List Str}

theorem step_reopen (pf : ActorPath → Platform P E) {w : ManagerStores σ}
    {path : ActorPath} {store : ManagerStore σ} {held' : σ}
    (hnew : ManagerStore.new m env (storePrefix none path) (password path) w.held =
      (.ok store, held')) :
    step m pf password w (path, ⟨env, .reopen⟩) =
      some (⟨held', Function.update w.memory path (some store.toMemory)⟩,
        [(path, .created (.ok ()))]) := by
  simp only [step, hnew]

theorem step_command (password : ActorPath → Option Key) {w : ManagerStores σ}
    {path : ActorPath} {memory : Memory} (hmemory : w.memory path = some memory)
    {command : StoreCommand P E}
    {answer : Except (Failure ActorError) (StoreResponse P E)}
    {store : ManagerStore σ}
    (hanswer : ManagerStore.handleMessage m (pf path) env (storePrefix none path)
      ⟨memory, w.held⟩ command = (answer, store))
    (hpanic : answer ≠ .error .panic) :
    step m pf password w (path, ⟨env, .command command⟩) =
      some (⟨store.held, Function.update w.memory path (some store.toMemory)⟩,
        [(path, .answered command answer)]) := by
  rcases answer with (e | _) | response
  · simp only [step, hmemory, hanswer]
  · exact absurd rfl hpanic
  · simp only [step, hmemory, hanswer]

theorem isSome_update {memory : ActorPath → Option Memory} {path other : ActorPath}
    {x : Memory} (h : other = path ∨ (memory other).isSome) :
    (Function.update memory path (some x) other).isSome := by
  by_cases hpath : other = path
  · rw [hpath, Function.update_self]
    rfl
  · rw [Function.update_of_ne hpath]
    exact h.resolve_left hpath

/-- A store is opened where nothing is stored yet. -/
theorem new_of_empty (hm : m.Serves overflowChecks Q H K) {p : Str} (hp : p ∈ Q)
    (henv : env.Healthy) (password : Option Key)
    (hevents : H held ps Namespaces.empty) (hstates : K held qs fun _ => none) :
    ∃ held' ps' qs', ManagerStore.new m env p password held =
        (.ok ⟨⟨0, 0, password⟩, held'⟩, held') ∧
      H held' ps' Namespaces.empty ∧ K held' qs' (fun _ => none) ∧
      p ∈ ps' ∧ p ∈ qs' := by
  have hheld : H held ps ActorStores.empty.storage.events := hevents
  obtain ⟨ps', qs', held', -, -, hevents', hstates', hcases⟩ :=
    new_spec hm hp env password hheld hstates
  have hnew : Store.new env (ActorStores.empty.storage.tables p) password =
      .ok ⟨⟨∅, none⟩, 0, 0, password⟩ := by
    rw [Store.new_eq env _ (Or.inr henv.2.1), henv.1, henv.1, henv.1]
    have hlast : (∅ : Table).last? = none := Table.last?_eq_none_iff.mpr rfl
    simp [ActorStores.empty, ActorStores.start, Storage.tables, Namespaces.empty,
      hlast, initialEventCounter]
  rcases hcases with ⟨e, hstore, -⟩ | ⟨store, hstore, -, hopened, hp', hq'⟩
  · rw [hnew] at hstore
    cases hstore
  · rw [hnew] at hstore
    cases hstore
    exact ⟨held', ps', qs', hopened, hevents', hstates', hp', hq'⟩

/-- The first event of an empty table gets the number 0. -/
theorem persist_of_empty (hm : m.Serves overflowChecks Q H K) {p : Str}
    {pf : Platform P E} (hpf : pf.RoundTrips) (henv : env.Healthy)
    (password : Option Key) (event : E) (hevents : H held ps Namespaces.empty)
    (hstates : K held qs fun _ => none) (hp : p ∈ ps) (hq : p ∈ qs) :
    ∃ memory held' bytes,
      ManagerStore.handleMessage m pf env p ⟨⟨0, 0, password⟩, held⟩
        (.persist event) = (.ok .persisted, ⟨memory, held'⟩) ∧
      H held' ps (Function.update Namespaces.empty p
        ((∅ : Table).insert (eventKey 0) bytes)) := by
  let store : Store := ⟨⟨∅, none⟩, 0, 0, password⟩
  obtain ⟨bytes, hseal, -⟩ := Store.sealEvent_ok store hpf henv event
  have hlast : (∅ : Table).last? = none := Table.last?_eq_none_iff.mpr rfl
  have hnumber : store.nextEventNumber pf env = .ok 0 := by
    simp [store, Store.nextEventNumber, Store.lastEvent, Store.last, hlast]
  have hpersist : store.handleMessage pf env (.persist event) =
      (.ok .persisted,
        { store with events := store.events.insert (eventKey 0) bytes }) := by
    simp only [Store.handleMessage, Store.persist, hseal, hnumber, henv.1, respond]
    rfl
  have hheld : H held ps ActorStores.empty.storage.events := hevents
  have hmatches : Matches H K ps qs ActorStores.empty.storage p
      ⟨store.memory, held⟩ store := matches_of_holds hheld hstates store rfl
  obtain ⟨hanswer, hnext⟩ :=
    hmatches.handleMessage pf env hm hp hq (.persist event)
  rw [hpersist] at hanswer hnext
  refine ⟨_, _, bytes, Prod.ext hanswer rfl, hnext.events⟩

/-- What a manager makes of two keys, when a purge of the first one empties the
tables of the second one. -/
structure PurgesAlong (m : Manager σ) (H : σ → List Str → Namespaces → Prop)
    (K : σ → List Str → Slots → Prop) (H' : σ → List Str → Namespaces → Prop)
    (K' : σ → List Str → Slots → Prop) (p q : Str) : Prop where
  empty : ∀ {held ps qs}, H held ps Namespaces.empty → K held qs (fun _ => none) →
    ∃ ps' qs', H' held ps' Namespaces.empty ∧ K' held qs' fun _ => none
  purge : ∀ {held ps ns}, H' held ps ns → q ∈ ps →
    (m.events.purge held p).1 = .ok () ∧
      H' (m.events.purge held p).2 ps (Function.update ns q ∅)

variable {p q : Str} {H' : σ → List Str → Namespaces → Prop}
  {K' : σ → List Str → Slots → Prop} {path other : ActorPath}

/-- Both stores are opened, then the second one persists its first event. -/
theorem run_first_event (password : ActorPath → Option Key)
    (hm : m.Serves overflowChecks {path.key} H K)
    (hm' : m.Serves overflowChecks {other.key} H' K')
    (halong : PurgesAlong m H K H' K' path.key other.key) (henv : env.Healthy)
    (hevents : H held [] Namespaces.empty) (hstates : K held [] fun _ => none)
    (hpf : (pf other).RoundTrips) (event : E) :
    ∃ w replies ps bytes,
      execute (step m pf password) (start held)
          [(path, ⟨env, .reopen⟩), (other, ⟨env, .reopen⟩),
            (other, ⟨env, .command (.persist event)⟩)] = some (w, replies) ∧
        (w.memory path).isSome ∧ (w.memory other).isSome ∧ other.key ∈ ps ∧
        H' w.held ps (Function.update Namespaces.empty other.key
          ((∅ : Table).insert (eventKey 0) bytes)) := by
  obtain ⟨held₁, ps₁, qs₁, hnew₁, hevents₁, hstates₁, -, -⟩ :=
    new_of_empty hm rfl henv (password path) hevents hstates
  obtain ⟨ps₁', qs₁', hevents₁', hstates₁'⟩ := halong.empty hevents₁ hstates₁
  obtain ⟨held₂, ps₂, qs₂, hnew₂, hevents₂, hstates₂, hp₂, hq₂⟩ :=
    new_of_empty hm' rfl henv (password other) hevents₁' hstates₁'
  obtain ⟨memory, held₃, bytes, hpersist, hevents₃⟩ :=
    persist_of_empty hm' hpf henv (password other) event hevents₂ hstates₂ hp₂ hq₂
  let memory₁ := Function.update (fun _ => none) path
    (some (⟨0, 0, password path⟩ : Memory))
  let memory₂ := Function.update memory₁ other (some ⟨0, 0, password other⟩)
  let w₁ : ManagerStores σ := ⟨held₁, memory₁⟩
  let w₂ : ManagerStores σ := ⟨held₂, memory₂⟩
  have hother : w₂.memory other = some ⟨0, 0, password other⟩ :=
    Function.update_self _ _ _
  have hfirst := step_reopen pf (w := start held) hnew₁
  have hsecond := step_reopen pf (w := w₁) hnew₂
  have hthird := step_command password hother hpersist (by simp)
  refine ⟨_, _, ps₂, bytes, execute_cons_eq_some.mpr ⟨_, _, _, hfirst,
    execute_cons_eq_some.mpr ⟨_, _, _, hsecond, execute_single hthird, rfl⟩, rfl⟩,
    ?_, ?_, hp₂, hevents₃⟩
  · exact isSome_update (Or.inr (isSome_update (Or.inr (isSome_update (Or.inl rfl)))))
  · exact isSome_update (Or.inl rfl)

/-- The purge is carried out, and the events of the second key are gone. -/
theorem step_purge (pf : ActorPath → Platform P E)
    (password : ActorPath → Option Key)
    (hm' : m.Serves overflowChecks {other.key} H' K')
    (halong : PurgesAlong m H K H' K' path.key other.key) (henv : env.Healthy)
    {w : ManagerStores σ} {ns : Namespaces} (hopen : (w.memory path).isSome)
    (hevents : H' w.held ps ns) (hother : other.key ∈ ps) :
    ∃ w' reply, step m pf password w
        (path, (⟨env, .command .purge⟩ : Request P E)) = some (w', reply) ∧
      H' w'.held ps (Function.update ns other.key ∅) := by
  obtain ⟨memory, hmemory⟩ := Option.isSome_iff_exists.mp hopen
  obtain ⟨hresult, hpurged⟩ := halong.purge hevents hother
  have hkept := (hm'.eventsKept ps _).purge path.key hpurged
  have hfirst : (m.events.purge w.held path.key).1.mapError Failure.error =
      .ok () := by
    rw [hresult]
    rfl
  have hpurge : (⟨memory, w.held⟩ : ManagerStore σ).purge m env path.key =
      ((m.states.purge (m.events.purge w.held path.key).2 path.key).1.mapError
          .error,
        ⟨memory, (m.states.purge (m.events.purge w.held path.key).2 path.key).2⟩) := by
    simp only [ManagerStore.purge, henv.1, ManagerStore.wrote, hfirst]
  refine ⟨_, _, step_command password hmemory (Prod.ext rfl rfl) ?_, ?_⟩
  · show respond _ (ManagerStore.purge m env path.key _).1 ≠ _
    rw [hpurge]
    cases (m.states.purge (m.events.purge w.held path.key).2 path.key).1 <;>
      simp [respond, Except.mapError]
  · show H' (ManagerStore.purge m env path.key _).2.held ps _
    rw [hpurge]
    exact hkept

/-- The purge of the first actor disturbs the second one. -/
theorem not_neverDisturbs (hm : m.Serves overflowChecks {path.key} H K)
    (hm' : m.Serves overflowChecks {other.key} H' K')
    (halong : PurgesAlong m H K H' K' path.key other.key)
    (hevents : H held [] Namespaces.empty) (hstates : K held [] fun _ => none)
    (hpf : ∀ path, (pf path).RoundTrips) (event : E) {among : Set ActorPath}
    (hpath : path ∈ among) (hother : other ∈ among) :
    ¬ NeverDisturbs m pf password held among path other := by
  intro hnever
  have henv := CounterActor.env_healthy
  obtain ⟨w, replies, ps, bytes, hrun, hopen, hopen', hmem, hstored⟩ :=
    run_first_event password hm hm' halong henv hevents hstates (hpf other) event
  obtain ⟨w', reply, hpurge, hgone⟩ :=
    step_purge pf password hm' halong henv hopen hstored hmem
  have hkept := (hnever _ w replies (by simp [hpath, hother]) hrun _ w' reply
    hpurge).events hopen' (eventKey 0) bytes
  have hbefore := hm'.events.get (eventKey 0) hstored hmem
  have hafter := hm'.events.get (eventKey 0) hgone hmem
  simp only [Namespaces.collections, Function.update_self] at hbefore hafter
  have hread := hkept (hbefore.trans (by simp [Table.get]))
  have hlost := hafter.symm.trans hread
  simp [Table.get] at hlost

/-- A purge of a key empties its own tables. -/
theorem PurgesAlong.same (hm : m.Serves overflowChecks {p} H K) :
    PurgesAlong m H K H K p p where
  empty hevents hstates := ⟨_, _, hevents, hstates⟩
  purge hevents hp := hm.events.purge hevents hp

end Together

/-! ### The three managers -/

section RocksDb

variable {p q : Str} {name : Str}

theorem prefixFree_singleton (p : Str) : PrefixFree {p} := by
  rintro q rfl r rfl -
  rfl

theorem prefixFree_pair (hpq : ¬ p <+: q) (hqp : ¬ q <+: p) :
    PrefixFree {p, q} := by
  rintro x (rfl | rfl) y (rfl | rfl) hxy
  · rfl
  · exact absurd hxy hpq
  · exact absurd hxy hqp
  · rfl

/-- A family that holds nothing for its handles has no entry. -/
theorem unwritten_of_holds {τ : Type} {F : Table → τ → Prop} {t : τ} {P : Set Str}
    {db : RocksDb} {ps : List Str} (h : RocksDb.Holds P F name db ps t)
    (hempty : ∀ family, F family t → family = ∅) : db.Unwritten name := by
  intro family hfamily
  rcases h.2 with ⟨family', hfamily', ht⟩ | ⟨hnone, -, -⟩
  · obtain rfl : family = family' := Option.some.inj (hfamily.symm.trans hfamily')
    exact hempty family ht
  · rw [hnone] at hfamily
    cases hfamily

theorem eq_empty_of_represents {P : Set Str} {family : Table}
    (h : Represents P family Namespaces.empty) : family = ∅ := by
  rw [Std.ExtTreeMap.eq_empty_iff_forall_not_mem]
  intro raw hraw
  obtain ⟨p, hp, k, rfl⟩ := h.owned raw hraw
  have hnone := h.lookup p hp k
  obtain ⟨data, hdata⟩ := mem_iff_exists_getElem?.mp hraw
  rw [hnone] at hdata
  simp [Namespaces.empty] at hdata

theorem eq_empty_of_storesSlots {P : Set Str} {family : Table}
    (h : RocksDb.StoresSlots P family fun _ => none) : family = ∅ := by
  rw [Std.ExtTreeMap.eq_empty_iff_forall_not_mem]
  intro raw hraw
  have hnone := h.1 raw (h.2 raw hraw)
  obtain ⟨data, hdata⟩ := mem_iff_exists_getElem?.mp hraw
  rw [hnone] at hdata
  cases hdata

/-- On RocksDB a purge takes along every key that its own one begins. -/
theorem purgesAlong_longer (overflowChecks : Bool) (hpq : p <+: q) :
    PurgesAlong (RocksDb.manager overflowChecks name)
      (RocksDb.Holds {p} (Represents {p}) (eventsTable name))
      (RocksDb.Holds {p} (RocksDb.StoresSlots {p}) (statesTable name))
      (RocksDb.Holds {q} (Represents {q}) (eventsTable name))
      (RocksDb.Holds {q} (RocksDb.StoresSlots {q}) (statesTable name)) p q where
  empty hevents hstates :=
    ⟨[], [],
      .start (unwritten_of_holds hevents fun _ => eq_empty_of_represents)
        (Represents.empty {q}),
      .start (unwritten_of_holds hstates fun _ => eq_empty_of_storesSlots)
        (RocksDb.StoresSlots.empty {q})⟩
  purge := by
    intro db ps ns hevents hq
    obtain ⟨-, family, hfamily, hrep⟩ := hevents.family hq
    obtain ⟨db', family', hpurge, hfamily', hgone⟩ :=
      RocksDb.purgeRaw_sound p hfamily
    have htaken : ∀ k, family'[q ++ '.' :: k]? = none := fun k =>
      (hgone _).trans (if_pos (hpq.trans (List.prefix_append q ('.' :: k))))
    show (RocksDbStore.purgeRaw db .sound ⟨eventsTable name, p⟩).1 = _ ∧
      RocksDb.Holds {q} (Represents {q}) (eventsTable name)
        (RocksDbStore.purgeRaw db .sound ⟨eventsTable name, p⟩).2 ps _
    rw [hpurge]
    refine ⟨rfl, hevents.1, Or.inl ⟨family', hfamily', ?_, ?_⟩⟩
    · rintro r rfl k
      rw [htaken, Function.update_self]
      simp
    · intro raw hraw
      obtain ⟨data, hdata⟩ := mem_iff_exists_getElem?.mp hraw
      rw [hgone] at hdata
      split at hdata
      · cases hdata
      · exact hrep.owned raw (mem_iff_exists_getElem?.mpr ⟨data, hdata⟩)

theorem rocksDb_not_neverDisturbs (overflowChecks : Bool) {db : RocksDb}
    (hevents : db.Unwritten (eventsTable name))
    (hstates : db.Unwritten (statesTable name)) {pf : ActorPath → Platform P E}
    (hpf : ∀ path, (pf path).RoundTrips) (event : E)
    {password : ActorPath → Option Key} {among : Set ActorPath}
    {path other : ActorPath} (hkeys : path.key <+: other.key) (hpath : path ∈ among)
    (hother : other ∈ among) :
    ¬ NeverDisturbs (RocksDb.manager overflowChecks name) pf password db among path
      other :=
  not_neverDisturbs
    (RocksDb.manager_serves overflowChecks name (prefixFree_singleton path.key))
    (RocksDb.manager_serves overflowChecks name (prefixFree_singleton other.key))
    (purgesAlong_longer overflowChecks hkeys)
    (.start hevents (Represents.empty _))
    (.start hstates (RocksDb.StoresSlots.empty _)) hpf event hpath hother

end RocksDb

/-- **When two actors with the default prefix are separated.**  On the memory
manager and on the SQLite manager if and only if their keys differ, whatever
other actors run; on the RocksDB manager if and only if neither key is the
beginning of the other one.  Separated means: in every run, with any calls
failing, no request of one of them changes any reply to the other one, nor
overwrites an event of it. -/
theorem separated_iff_keys (overflowChecks : Bool) (name : Str) {db : RocksDb}
    (hevents : db.Unwritten (eventsTable name))
    (hstates : db.Unwritten (statesTable name)) (pf : ActorPath → Platform P E)
    (hpf : ∀ path, (pf path).RoundTrips) (event : E)
    (password : ActorPath → Option Key) (path other : ActorPath) :
    (Separated (MemoryManager.manager overflowChecks name) pf password
        MemoryManager.new Set.univ path other ↔ path.key ≠ other.key) ∧
      (Separated (SqliteDb.manager overflowChecks name) pf password SqliteDb.new
        Set.univ path other ↔ path.key ≠ other.key) ∧
      (Separated (RocksDb.manager overflowChecks name) pf password db {path, other}
        path other ↔ ¬ path.key <+: other.key ∧ ¬ other.key <+: path.key) := by
  obtain ⟨hmemory, hmemory'⟩ := memory_holdsNothing name
  obtain ⟨hsqlite, hsqlite'⟩ := sqlite_holdsNothing name
  refine ⟨⟨fun h hkey => ?_, ?_⟩, ⟨fun h hkey => ?_, ?_⟩,
    fun h => ⟨fun hpq => ?_, fun hqp => ?_⟩, fun ⟨hpq, hqp⟩ => ?_⟩
  · have hm := MemoryManager.manager_serves overflowChecks name {path.key}
    exact not_neverDisturbs hm (hkey ▸ hm) (hkey ▸ .same hm) hmemory hmemory' hpf
      event (Set.mem_univ _) (Set.mem_univ _) h.1
  · exact separated_of_ne (MemoryManager.manager_serves overflowChecks name Set.univ)
      hmemory hmemory' (fun _ _ => Set.mem_univ _) (Set.mem_univ _) (Set.mem_univ _)
  · have hm := SqliteDb.manager_serves overflowChecks name {path.key}
    exact not_neverDisturbs hm (hkey ▸ hm) (hkey ▸ .same hm) hsqlite hsqlite' hpf
      event (Set.mem_univ _) (Set.mem_univ _) h.1
  · exact separated_of_ne (SqliteDb.manager_serves overflowChecks name Set.univ)
      hsqlite hsqlite' (fun _ _ => Set.mem_univ _) (Set.mem_univ _) (Set.mem_univ _)
  · exact rocksDb_not_neverDisturbs overflowChecks hevents hstates hpf event hpq
      (Or.inl rfl) (Or.inr rfl) h.1
  · exact rocksDb_not_neverDisturbs overflowChecks hevents hstates hpf event hqp
      (Or.inr rfl) (Or.inl rfl) h.2
  · refine separated_of_ne (RocksDb.manager_serves overflowChecks name
        (prefixFree_pair hpq hqp)) (.start hevents (Represents.empty _))
      (.start hstates (RocksDb.StoresSlots.empty _)) ?_ (Or.inl rfl) (Or.inr rfl)
      fun heq => hpq (heq ▸ List.prefix_refl _)
    rintro actor (rfl | rfl)
    · exact Or.inl rfl
    · exact Or.inr rfl

end ManagerStores

namespace CounterActor

/-- Keys of which one begins the other are kept apart by the memory manager and
the SQLite manager, and not by RocksDB. -/
theorem user1_separated_from_user10 :
    let pf : ActorPath → Platform UInt8 UInt8 := fun _ => platform
    let path : ActorPath := ⟨["user".toList, "user1".toList]⟩
    let other : ActorPath := ⟨["user".toList, "user10".toList]⟩
    ManagerStores.Separated (MemoryManager.manager false "store".toList) pf
        (fun _ => none) MemoryManager.new Set.univ path other ∧
      ManagerStores.Separated (SqliteDb.manager false "store".toList) pf
        (fun _ => none) SqliteDb.new Set.univ path other ∧
      ¬ ManagerStores.Separated (RocksDb.manager false "store".toList) pf
        (fun _ => none) emptyRocksDb {path, other} path other := by
  intro pf path other
  obtain ⟨hmemory, hsqlite, hrocksDb⟩ :=
    ManagerStores.separated_iff_keys false "store".toList
      (emptyRocksDb_unwritten _) (emptyRocksDb_unwritten _) pf
      (fun _ => platform_roundTrips) 5 (fun _ => none) path other
  refine ⟨hmemory.mpr (by decide), hsqlite.mpr (by decide), fun h => ?_⟩
  exact (hrocksDb.mp h).1 (by decide)

/-- Both actors have the key `x`.  They persist in turn, each with its own
counter, and the third event is stored over the second one, which was persisted
by the other actor. -/
theorem shared_key_loses_event :
    let pf : ActorPath → Platform UInt8 UInt8 := fun _ => platform
    let path : ActorPath := ⟨["user".toList, "a".toList, "x".toList]⟩
    let other : ActorPath := ⟨["user".toList, "b".toList, "x".toList]⟩
    let m := MemoryManager.manager false "store".toList
    path ≠ other ∧
      ManagerStores.replies m pf (fun _ => none) MemoryManager.new
          [(path, ⟨env, .reopen⟩), (other, ⟨env, .reopen⟩),
            (path, ⟨env, .command (.persist 5)⟩),
            (other, ⟨env, .command (.persist 7)⟩),
            (other, ⟨env, .command .lastEvent⟩),
            (path, ⟨env, .command (.persist 9)⟩),
            (other, ⟨env, .command .lastEvent⟩)] =
        some
          [(path, .created (.ok ())), (other, .created (.ok ())),
            (path, .answered (.persist 5) (.ok .persisted)),
            (other, .answered (.persist 7) (.ok .persisted)),
            (other, .answered .lastEvent (.ok (.lastEvent (some 7)))),
            (path, .answered (.persist 9) (.ok .persisted)),
            (other, .answered .lastEvent (.ok (.lastEvent (some 9))))] ∧
      ¬ ManagerStores.Separated m pf (fun _ => none) MemoryManager.new
        {path, other} path other := by
  intro pf path other m
  have hm := MemoryManager.manager_serves false "store".toList {path.key}
  have hm' := MemoryManager.manager_serves false "store".toList {other.key}
  obtain ⟨hempty, hempty'⟩ := ManagerStores.memory_holdsNothing "store".toList
  have halong : ManagerStores.PurgesAlong m _ _ _ _ path.key other.key := .same hm
  refine ⟨by decide, by decide +kernel, fun h => ?_⟩
  exact ManagerStores.not_neverDisturbs hm hm' halong hempty hempty'
    (fun _ => platform_roundTrips) 5 (Or.inl rfl) (Or.inr rfl) h.1

end CounterActor

end Persistence
end Rush
