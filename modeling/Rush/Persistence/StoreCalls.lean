import Rush.Persistence.StoreRun

/-!
# The calls that concern the key

For every command, the uses of the key and the byte strings handed to `put`, in
order; a `put` that fails has been handed its bytes too.  The functions follow
those of the store, and what a command writes to the tables is among its calls.
-/

namespace Rush
namespace Persistence

open Foundation Database Actor

/-- Unsealing the key, and handing bytes to `Collection::put` and `State::put`. -/
inductive KeyCall
  | unseal (keyUse : KeyUse)
  | putEvent (bytes : Bytes)
  | putState (bytes : Bytes)
deriving DecidableEq

/-- The same environment with other answers to the uses of the key. -/
def Env.withUnlock (env : Env) (f : KeyUse → Bool) : Env :=
  { env with unlock := f }

namespace Store

section Calls

variable {P E : Type} (pf : Platform P E) (env : Env) (store : Store)

/-- The key is unsealed if there is one. -/
def unsealCalls (keyUse : KeyUse) : List KeyCall :=
  match store.keyBox with
  | none => []
  | some _ => [.unseal keyUse]

def lastEventCalls : List KeyCall :=
  match store.last env with
  | none => []
  | some _ => store.unsealCalls .lastEvent

def nextEventNumberCalls : List KeyCall :=
  if store.eventCounter ≠ 0 then [] else store.lastEventCalls env

def persistCalls (event : E) : List KeyCall :=
  store.unsealCalls .persist ++
    match store.sealEvent pf env event with
    | .error _ => []
    | .ok bytes =>
        store.nextEventNumberCalls env ++
          match store.nextEventNumber pf env with
          | .error _ => []
          | .ok _ => [.putEvent bytes]

def snapshotCalls (actor : P) : List KeyCall :=
  match pf.codec.encodeState (actor, store.eventCounter) with
  | .error _ => []
  | .ok _ =>
      store.unsealCalls .snapshot ++
        match store.sealState pf env actor store.eventCounter with
        | .error _ => []
        | .ok bytes => [.putState bytes]

def persistStateCalls (event : E) (state : P) : List KeyCall :=
  store.unsealCalls .persist ++
    match store.sealEvent pf env event with
    | .error _ => []
    | .ok bytes =>
        store.snapshotCalls pf env state ++
          match store.snapshot pf env state with
          | (.error _, _) => []
          | (.ok (), _) => [.putEvent bytes]

def getStateCalls : List KeyCall :=
  match store.getStateData env with
  | .error _ => []
  | .ok none => []
  | .ok (some _) => store.unsealCalls .getState

def eventsFromCalls : Nat → UInt64 → List KeyCall
  | 0, _ => []
  | count + 1, i =>
      match store.getEvent env i with
      | .error _ => []
      | .ok data =>
          store.unsealCalls (.event i) ++
            match store.openEvent pf env (.event i) data with
            | .error _ => []
            | .ok _ => eventsFromCalls count (i + 1)

def eventsInCalls (start stop : UInt64) : List KeyCall :=
  store.eventsFromCalls pf env (stop.toNat + 1 - start.toNat) start

/-- The calls of the replay and of the snapshot after it. -/
def replayCalls (state : P) : List KeyCall :=
  match pf.succ store.stateCounter with
  | .error _ => []
  | .ok start =>
      store.eventsInCalls pf env start store.eventCounter ++
        match store.replay pf env state with
        | .error _ => []
        | .ok state => store.snapshotCalls pf env state

def recoverCalls : List KeyCall :=
  store.getStateCalls env ++
    match store.getState pf env with
    | .error _ => []
    | .ok none => []
    | .ok (some (state, counter)) =>
        match store.last env with
        | none => []
        | some (key, _) =>
            match parseU64 key with
            | .error _ => []
            | .ok n =>
                if n ≠ counter then
                  replayCalls pf env
                    { store with stateCounter := counter, eventCounter := n }
                    state
                else []

/-- The calls of a command. -/
def calls : StoreCommand P E → List KeyCall
  | .persist event => store.persistCalls pf env event
  | .persistLight event actor => store.persistStateCalls pf env event actor
  | .snapshot actor => store.snapshotCalls pf env actor
  | .recover => store.recoverCalls pf env
  | .getEvents start stop => store.eventsInCalls pf env start stop
  | .lastEvent => store.lastEventCalls env
  | .purge => []
  | .lastEventNumber => []
  | .lastEventsFrom start =>
      store.eventsInCalls pf env start store.eventCounter

end Calls

section Writes

variable {P E : Type} {pf : Platform P E} {env : Env} {store : Store}

/-- What the tables hold after a command was there before, or was handed to a
`put` of the command. -/
def WritesCalled (store store' : Store) (calls : List KeyCall) : Prop :=
  (∀ (key : Str) (data : Bytes), store'.events[key]? = some data →
    store.events[key]? = some data ∨ .putEvent data ∈ calls) ∧
  ∀ data, store'.states = some data →
    store.states = some data ∨ .putState data ∈ calls

theorem WritesCalled.refl (store : Store) (calls : List KeyCall) :
    store.WritesCalled store calls :=
  ⟨fun _ _ h => Or.inl h, fun _ h => Or.inl h⟩

theorem WritesCalled.mono {store' : Store} {calls calls' : List KeyCall}
    (h : store.WritesCalled store' calls)
    (hsub : ∀ call ∈ calls, call ∈ calls') : store.WritesCalled store' calls' :=
  ⟨fun key data hdata => (h.1 key data hdata).imp_right (hsub _),
    fun data hdata => (h.2 data hdata).imp_right (hsub _)⟩

/-- An event that was handed to `put` is stored. -/
theorem WritesCalled.insert {middle store' : Store} {calls : List KeyCall}
    (h : store.WritesCalled middle calls) {key : Str} {data : Bytes}
    (hput : .putEvent data ∈ calls)
    (hevents : store'.events = middle.events.insert key data)
    (hstates : store'.states = middle.states) :
    store.WritesCalled store' calls := by
  constructor
  · intro key' data' hdata'
    rw [hevents, getElem?_insert_eq] at hdata'
    split at hdata'
    · cases hdata'
      exact Or.inr hput
    · exact h.1 key' data' hdata'
  · intro data' hdata'
    rw [hstates] at hdata'
    exact h.2 data' hdata'

theorem snapshot_writesCalled (pf : Platform P E) (env : Env) (store : Store)
    (actor : P) :
    store.WritesCalled (store.snapshot pf env actor).2
      (store.snapshotCalls pf env actor) := by
  rcases snapshot_cases pf env store actor with
    ⟨-, e, hsnapshot⟩ | ⟨bytes, hseal, -, hsnapshot⟩
  · rw [hsnapshot]
    exact WritesCalled.refl store _
  · rw [hsnapshot]
    refine ⟨fun _ _ h => Or.inl h, fun data h => Or.inr ?_⟩
    cases h
    unfold snapshotCalls
    rw [hseal]
    split
    · rename_i e hencode
      simp [sealState, hencode] at hseal
    · simp

theorem persist_writesCalled (pf : Platform P E) (env : Env) (store : Store)
    (event : E) :
    store.WritesCalled (store.persist pf env event).2
      (store.persistCalls pf env event) := by
  unfold persist persistCalls
  cases hseal : store.sealEvent pf env event with
  | error e => exact WritesCalled.refl store _
  | ok bytes =>
      cases hnext : store.nextEventNumber pf env with
      | error e => exact WritesCalled.refl store _
      | ok next =>
          cases env.fault .eventsPut with
          | some e => exact WritesCalled.refl store _
          | none => exact (WritesCalled.refl store _).insert (by simp) rfl rfl

theorem persistState_writesCalled (pf : Platform P E) (env : Env)
    (store : Store) (event : E) (state : P) :
    store.WritesCalled (store.persistState pf env event state).2
      (store.persistStateCalls pf env event state) := by
  have hsnapshot := snapshot_writesCalled pf env store state
  unfold persistState persistStateCalls
  cases hseal : store.sealEvent pf env event with
  | error e => exact WritesCalled.refl store _
  | ok bytes =>
      simp only
      generalize store.snapshot pf env state = outcome at hsnapshot ⊢
      obtain ⟨result, middle⟩ := outcome
      -- the calls of the snapshot are among those of the command
      have hmiddle : ∀ rest, store.WritesCalled middle
          (store.unsealCalls .persist ++
            (store.snapshotCalls pf env state ++ rest)) := by
        intro rest
        apply hsnapshot.mono
        intro call hcall
        exact List.mem_append_right _ (List.mem_append_left _ hcall)
      cases result with
      | error e => exact hmiddle _
      | ok done =>
          cases env.fault .eventsPut with
          | some e => exact hmiddle _
          | none => exact (hmiddle _).insert (by simp) rfl rfl

theorem recover_writesCalled (pf : Platform P E) (env : Env) (store : Store) :
    store.WritesCalled (store.recover pf env).2
      (store.recoverCalls pf env) := by
  have hrecovery := recovery pf env store
  generalize store.recover pf env = outcome at hrecovery
  cases hrecovery with
  | unreadable | noSnapshot | noEvents | badKey | current | replayFails
  | writeFails => exact ⟨fun _ _ h => Or.inl h, fun _ h => Or.inl h⟩
  | replayed s c key data n s' bytes hstate hlast hkey hne hreplay hwrite hseal =>
      refine ⟨fun _ _ h => Or.inl h, fun written h => Or.inr ?_⟩
      cases h
      have hstart : ∃ start, pf.succ c = .ok start := by
        obtain ⟨start, events, hstart, -⟩ := replay_eq_ok_iff.mp hreplay
        exact ⟨start, hstart⟩
      obtain ⟨start, hstart⟩ := hstart
      obtain ⟨data', hencode⟩ : ∃ data',
          pf.codec.encodeState (s', n) = .ok data' := by
        cases hencode : pf.codec.encodeState (s', n) with
        | error e => simp [sealState, hencode] at hseal
        | ok data' => exact ⟨data', rfl⟩
      have hseal' : sealState pf env
          { store with stateCounter := c, eventCounter := n } s' n =
          .ok bytes := hseal
      simp [recoverCalls, hstate, hlast, hkey, hne, replayCalls, hstart,
        hreplay, snapshotCalls, hencode, hseal']

/-- **Whatever a command writes is among its calls.** -/
theorem handleMessage_writesCalled (pf : Platform P E) (env : Env)
    (store : Store) (command : StoreCommand P E) :
    store.WritesCalled (store.handleMessage pf env command).2
      (store.calls pf env command) := by
  cases command with
  | persist event => exact persist_writesCalled pf env store event
  | persistLight event actor =>
      exact persistState_writesCalled pf env store event actor
  | snapshot actor => exact snapshot_writesCalled pf env store actor
  | recover => exact recover_writesCalled pf env store
  | purge =>
      show store.WritesCalled (store.purge env).2 []
      unfold purge
      cases env.fault .eventsPurge with
      | some e => exact WritesCalled.refl store _
      | none =>
          cases env.fault .statesPurge with
          | some e => exact ⟨fun _ _ h => by simp at h, fun _ h => Or.inl h⟩
          | none => exact ⟨fun _ _ h => by simp at h, fun _ h => by simp at h⟩
  | lastEvent | lastEventNumber | lastEventsFrom | getEvents =>
      exact WritesCalled.refl store _

end Writes

section Unseal

variable {P E : Type} {pf : Platform P E} {env : Env} {store : Store}
  {f : KeyUse → Bool}

/-- The answers agree on all uses among these calls. -/
def Agrees (f : KeyUse → Bool) (env : Env) (calls : List KeyCall) : Prop :=
  ∀ keyUse, .unseal keyUse ∈ calls → f keyUse = env.unlock keyUse

theorem Agrees.unlock {keyUse : KeyUse} {key : Key}
    (h : Agrees f env (store.unsealCalls keyUse))
    (hkey : store.keyBox = some key) : f keyUse = env.unlock keyUse :=
  h keyUse (by simp [unsealCalls, hkey])

theorem sealEvent_agrees (h : Agrees f env (store.unsealCalls .persist))
    (event : E) :
    store.sealEvent pf (env.withUnlock f) event =
      store.sealEvent pf env event := by
  unfold sealEvent
  cases hkey : store.keyBox with
  | none => rfl
  | some key =>
      simp only [Env.withUnlock, h.unlock hkey]

theorem openEvent_agrees {keyUse : KeyUse}
    (h : Agrees f env (store.unsealCalls keyUse)) (data : Bytes) :
    store.openEvent pf (env.withUnlock f) keyUse data =
      store.openEvent pf env keyUse data := by
  unfold openEvent
  cases hkey : store.keyBox with
  | none => rfl
  | some key =>
      simp only [Env.withUnlock, h.unlock hkey]

theorem lastEvent_agrees (h : Agrees f env (store.lastEventCalls env)) :
    store.lastEvent pf (env.withUnlock f) = store.lastEvent pf env := by
  unfold lastEvent
  have hlast : store.last (env.withUnlock f) = store.last env := rfl
  unfold lastEventCalls at h
  rw [hlast]
  cases hentry : store.last env with
  | none => rfl
  | some entry =>
      rw [hentry] at h
      simp only [openEvent_agrees h]

theorem nextEventNumber_agrees
    (h : Agrees f env (store.nextEventNumberCalls env)) :
    store.nextEventNumber pf (env.withUnlock f) =
      store.nextEventNumber pf env := by
  unfold nextEventNumber
  unfold nextEventNumberCalls at h
  by_cases hzero : store.eventCounter ≠ 0
  · rw [if_pos hzero, if_pos hzero]
  · rw [if_neg hzero] at h
    rw [if_neg hzero, if_neg hzero, lastEvent_agrees h]

theorem Agrees.left {before after : List KeyCall}
    (h : Agrees f env (before ++ after)) : Agrees f env before :=
  fun keyUse hmem => h keyUse (List.mem_append_left _ hmem)

theorem Agrees.right {before after : List KeyCall}
    (h : Agrees f env (before ++ after)) : Agrees f env after :=
  fun keyUse hmem => h keyUse (List.mem_append_right _ hmem)

theorem persist_agrees (event : E)
    (h : Agrees f env (store.persistCalls pf env event)) :
    store.persist pf (env.withUnlock f) event = store.persist pf env event := by
  unfold persistCalls at h
  unfold persist
  rw [sealEvent_agrees h.left]
  have hrest := h.right
  cases hseal : store.sealEvent pf env event with
  | error e => rfl
  | ok bytes =>
      rw [hseal] at hrest
      rw [nextEventNumber_agrees hrest.left]
      rfl

theorem snapshot_agrees (actor : P)
    (h : Agrees f env (store.snapshotCalls pf env actor)) :
    store.snapshot pf (env.withUnlock f) actor =
      store.snapshot pf env actor := by
  have hseal : ∀ n, sealState pf (env.withUnlock f)
      { store with stateCounter := n } actor store.eventCounter =
      sealState pf env { store with stateCounter := n } actor
        store.eventCounter := by
    intro n
    unfold snapshotCalls at h
    unfold sealState
    cases hencode : pf.codec.encodeState (actor, store.eventCounter) with
    | error e => rfl
    | ok data =>
        rw [hencode] at h
        cases hkey : store.keyBox with
        | none => rfl
        | some key =>
            simp only [Env.withUnlock, h.left.unlock hkey]
  unfold snapshot
  simp only [hseal]
  rfl

theorem persistState_agrees (event : E) (state : P)
    (h : Agrees f env (store.persistStateCalls pf env event state)) :
    store.persistState pf (env.withUnlock f) event state =
      store.persistState pf env event state := by
  unfold persistStateCalls at h
  unfold persistState
  rw [sealEvent_agrees h.left]
  have hrest := h.right
  cases hseal : store.sealEvent pf env event with
  | error e => rfl
  | ok bytes =>
      rw [hseal] at hrest
      rw [snapshot_agrees state hrest.left]
      rfl

theorem eventsFrom_agrees (count : Nat) (i : UInt64)
    (h : Agrees f env (store.eventsFromCalls pf env count i)) :
    store.eventsFrom pf (env.withUnlock f) count i =
      store.eventsFrom pf env count i := by
  induction count generalizing i with
  | zero => rfl
  | succ count ih =>
      have hget : store.getEvent (env.withUnlock f) i = store.getEvent env i :=
        rfl
      unfold eventsFromCalls at h
      unfold eventsFrom
      rw [hget]
      cases hdata : store.getEvent env i with
      | error e => rfl
      | ok data =>
          rw [hdata] at h
          simp only [openEvent_agrees h.left]
          cases hopen : store.openEvent pf env (.event i) data with
          | error e => rfl
          | ok event =>
              have hrest := h.right
              simp only [hopen] at hrest
              rw [ih (i + 1) hrest]

theorem getState_agrees (h : Agrees f env (store.getStateCalls env)) :
    store.getState pf (env.withUnlock f) = store.getState pf env := by
  have hread : store.getStateData (env.withUnlock f) = store.getStateData env :=
    rfl
  unfold getStateCalls at h
  unfold getState
  rw [hread]
  rcases hdata : store.getStateData env with e | (_ | data)
  · rfl
  · rfl
  · rw [hdata] at h
    cases hkey : store.keyBox with
    | none => rfl
    | some key =>
        simp only [Env.withUnlock, h.unlock hkey]

theorem replay_agrees (state : P)
    (h : Agrees f env (store.replayCalls pf env state)) :
    store.replay pf (env.withUnlock f) state = store.replay pf env state ∧
      ∀ state', store.replay pf env state = .ok state' →
        store.snapshot pf (env.withUnlock f) state' =
          store.snapshot pf env state' := by
  unfold replayCalls at h
  unfold replay at h ⊢
  cases hstart : pf.succ store.stateCounter with
  | error e => exact ⟨rfl, by simp [bind, Except.bind]⟩
  | ok start =>
      simp only [hstart] at h
      have hevents : store.eventsIn pf (env.withUnlock f) start
          store.eventCounter = store.eventsIn pf env start store.eventCounter :=
        eventsFrom_agrees _ _ h.left
      simp only [bind, Except.bind, hevents, true_and]
      intro state' hreplay
      have hrest := h.right
      simp only [bind, Except.bind, hreplay] at hrest
      exact snapshot_agrees state' hrest

theorem recover_agrees (h : Agrees f env (store.recoverCalls pf env)) :
    store.recover pf (env.withUnlock f) = store.recover pf env := by
  unfold recoverCalls at h
  unfold recover
  rw [getState_agrees h.left]
  have hrest := h.right
  rcases hstate : store.getState pf env with e | (_ | ⟨s, c⟩)
  · rfl
  · rfl
  · rw [hstate] at hrest
    have hkept : ∀ env', last env' { store with stateCounter := c } =
        store.last env' := fun _ => rfl
    have hlast : store.last (env.withUnlock f) = store.last env := rfl
    simp only [hkept, hlast]
    cases hentry : store.last env with
    | none => rfl
    | some entry =>
        obtain ⟨key, data⟩ := entry
        simp only [hentry] at hrest
        cases hkey : parseU64 key with
        | error e => simp only [hkey]
        | ok n =>
            simp only [hkey] at hrest ⊢
            by_cases hne : n ≠ c
            · rw [if_pos hne] at hrest
              obtain ⟨hreplay, hsnapshot⟩ := replay_agrees s hrest
              simp only [if_pos hne, hreplay]
              cases hend : replay pf env
                  { store with stateCounter := c, eventCounter := n } s with
              | error e => rfl
              | ok s' => simp only [hsnapshot s' hend]
            · simp only [if_neg hne]

/-- **The calls list every use of the key**: a command does not depend on how
any other use would be answered. -/
theorem handleMessage_agrees (command : StoreCommand P E)
    (h : Agrees f env (store.calls pf env command)) :
    store.handleMessage pf (env.withUnlock f) command =
      store.handleMessage pf env command := by
  cases command with
  | persist event => simp only [handleMessage, persist_agrees event h]
  | persistLight event actor =>
      simp only [handleMessage, persistState_agrees event actor h]
  | snapshot actor => simp only [handleMessage, snapshot_agrees actor h]
  | recover => simp only [handleMessage, recover_agrees h]
  | lastEvent => simp only [handleMessage, lastEvent_agrees h]
  | getEvents start stop =>
      simp only [handleMessage, eventsIn, eventsFrom_agrees _ _ h]
  | lastEventsFrom start =>
      simp only [handleMessage, eventsIn, eventsFrom_agrees _ _ h]
  | purge => rfl
  | lastEventNumber => rfl

end Unseal

end Store

end Persistence
end Rush
