import Rush.Actor.AskLinearizable
import Rush.Persistence.EventRange

/-!
# A store with concurrent callers

The actor of a store serves any number of callers.  Whatever order their
messages come in, the store is an event log: the log below serves one command
after the other, and what the callers of the store see is linearizable with
respect to it.
-/

namespace Rush
namespace Persistence

open Foundation Database Actor

section Code

variable {P E χ : Type}

/-- What `handle_message` returns, or that it panics. -/
def handlerResult {α : Type} :
    Except (Failure ActorError) α → Option (Except ActorError α)
  | .ok a => some (.ok a)
  | .error (.error e) => some (.error e)
  | .error .panic => none

/-- The code of the store actor; it has the default hooks. -/
def storeCode (pf : Platform P E) (env : χ → Env) :
    ActorCode Store (StoreCommand P E) (StoreResponse P E) χ where
  handleMessage store _ command oracle :=
    let (answer, store) := store.handleMessage pf (env oracle) command
    (handlerResult answer, store)
  hook store _ _ := (some (), store)

/-- The answer of the handler with this result. -/
def handlerAnswer {α : Type} :
    Except ActorError α → Except (Failure ActorError) α
  | .ok a => .ok a
  | .error e => .error (.error e)

theorem handlerResult_eq_some {α : Type} {answer : Except (Failure ActorError) α}
    {result : Except ActorError α} (h : handlerResult answer = some result) :
    answer = handlerAnswer result := by
  unfold handlerResult at h
  split at h
  · cases h
    rfl
  · cases h
    rfl
  · contradiction

theorem handlerResult_eq_none {α : Type} {answer : Except (Failure ActorError) α}
    (h : handlerResult answer = none) : answer = .error .panic := by
  unfold handlerResult at h
  split at h
  · contradiction
  · contradiction
  · rfl

theorem storeCode_eq_some {pf : Platform P E} {env : χ → Env} {store store' : Store}
    {sender : ActorPath} {command : StoreCommand P E} {oracle : χ}
    {result : Except ActorError (StoreResponse P E)}
    (h : (storeCode pf env).handleMessage store sender command oracle =
      (some result, store')) :
    store.handleMessage pf (env oracle) command = (handlerAnswer result, store') := by
  obtain ⟨hresult, hstore⟩ := Prod.mk.inj h
  exact Prod.ext (handlerResult_eq_some hresult) hstore

theorem storeCode_eq_none {pf : Platform P E} {env : χ → Env} {store store' : Store}
    {sender : ActorPath} {command : StoreCommand P E} {oracle : χ}
    (h : (storeCode pf env).handleMessage store sender command oracle =
      (none, store')) :
    store.handleMessage pf (env oracle) command = (.error .panic, store') := by
  obtain ⟨hresult, hstore⟩ := Prod.mk.inj h
  exact Prod.ext (handlerResult_eq_none hresult) hstore

/-- The calls of a store whose events can be read. -/
abbrev ReadableEnv := { env : Env // env.EventsReadable }

/-- A request to the actor of a store. -/
abbrev StoreRequest (P E : Type) := ActorRequest (StoreCommand P E)

/-- What a caller of a store gets. -/
abbrev StoreResult (P E : Type) := Except ActorError (StoreResponse P E)

/-- The reply that is in a request that took effect. -/
def servedReply (e : Effect Nat (StoreRequest P E) (StoreResult P E)) :
    Reply P E :=
  .answered e.request.2 (handlerAnswer e.response)

end Code

section EventLog

variable {P E : Type}

/-- Commands that may fail, and then leave the log alone. -/
def StoreCommand.MayFail : StoreCommand P E → Prop
  | .persist _ | .persistLight _ _ | .snapshot _ | .recover => True
  | _ => False

/-- What an event log answers to a command other than `Purge`, and what becomes
of it. -/
inductive ServesLog (log : List E) :
    StoreCommand P E → StoreResult P E → List E → Prop
  | persisted (event) : ServesLog log (.persist event) (.ok .persisted) (log ++ [event])
  | replaced (event actor) :
      ServesLog log (.persistLight event actor) (.ok .persisted)
        (log.dropLast ++ [event])
  | snapshotted (actor) :
      ServesLog log (.snapshot actor) (.ok .snapshotted) log
  | recovered (state) : ServesLog log .recover (.ok (.state state)) log
  | failed (command e) (hfail : command.MayFail) :
      ServesLog log command (.ok (.error e)) log
  | lastEvent : ServesLog log .lastEvent (.ok (.lastEvent log.getLast?)) log
  | lastEventNumber :
      ServesLog log .lastEventNumber
        (.ok (.lastEventNumber (UInt64.ofNat (log.length - 1)))) log
  | getEvents (start stop) :
      ServesLog log (.getEvents start stop)
        (.ok (.events (slice log start.toNat (stop.toNat + 1)))) log
  | lastEventsFrom (start) :
      ServesLog log (.lastEventsFrom start) (.ok (.events (log.drop start.toNat)))
        log

variable (P E) in
/-- The event log as an object that serves one command after the other. -/
def logObject : SequentialObject (List E) (StoreRequest P E) (StoreResult P E) where
  serves log request result log' := ServesLog log request.2 result log'
  moves log log' := log' = log

end EventLog

section Serving

variable {P E : Type} {pf : Platform P E} {env : Env} {store : Store}
  {password : Option Key} {log : List E}

theorem respond_eq_handlerAnswer {α : Type} {response : α → StoreResponse P E}
    {r : Except (Failure StoreError) α} {result : StoreResult P E}
    (h : respond response r = handlerAnswer result) :
    (∃ a, r = .ok a ∧ result = .ok (response a)) ∨
      ∃ e, result = .ok (.error e) := by
  cases result with
  | error e =>
      cases r with
      | ok a => contradiction
      | error e' => cases e' <;> simp [respond, handlerAnswer] at h
  | ok answer =>
      cases r with
      | ok a =>
          cases h
          exact Or.inl ⟨a, rfl, rfl⟩
      | error e =>
          cases e with
          | error e =>
              cases h
              exact Or.inr ⟨e, rfl⟩
          | panic => contradiction

theorem handlerAnswer_eq_ok {α : Type} {a : α} {result : Except ActorError α}
    (h : .ok a = handlerAnswer result) : result = .ok a := by
  cases result with
  | ok b =>
      cases h
      rfl
  | error e => contradiction

namespace Store.Logs

theorem lastEvent_eq (h : store.Logs pf password log) (henv : env.EventsReadable) :
    store.lastEvent pf env = .ok log.getLast? := by
  have hread := Store.last_of_fault henv.eventsLast store
  by_cases hempty : log = []
  · have hholds := h.holds
    rw [hempty] at hholds ⊢
    simp only [Store.lastEvent, hread, hholds.last_none, List.getLast?_nil]
  · obtain ⟨data, event, hevent, hlast, hsealed⟩ := h.holds.last_some hempty
    have hopen : store.openEvent pf env .lastEvent data = .ok event :=
      Store.openEvent_of_unlock henv.unlockLast (h.keyBox.symm ▸ hsealed)
    simp only [Store.lastEvent, hread, hlast, hopen, hevent]

/-- The events up to the counter are all there are. -/
theorem eventsIn_counter (h : store.Logs pf password log)
    (henv : env.EventsReadable) (start : UInt64) :
    store.eventsIn pf env start store.eventCounter = .ok (log.drop start.toNat) := by
  rw [h.eventsIn_eq henv, slice, List.take_of_length_le]
  rw [h.counter]
  omega

/-- A store that holds the log serves what the log serves. -/
theorem serves (h : store.Logs pf password log) (henv : env.EventsReadable)
    {command : StoreCommand P E} {result : StoreResult P E}
    (hcommand : command ≠ .purge)
    (hanswer : (store.handleMessage pf env command).1 = handlerAnswer result) :
    ServesLog log command result
      (Reply.logged log (.answered command (handlerAnswer result))) := by
  cases command with
  | persist event =>
      rcases respond_eq_handlerAnswer hanswer with ⟨-, -, rfl⟩ | ⟨e, rfl⟩
      · exact .persisted event
      · exact .failed _ e trivial
  | persistLight event actor =>
      rcases respond_eq_handlerAnswer hanswer with ⟨-, -, rfl⟩ | ⟨e, rfl⟩
      · exact .replaced event actor
      · exact .failed _ e trivial
  | snapshot actor =>
      rcases respond_eq_handlerAnswer hanswer with ⟨-, -, rfl⟩ | ⟨e, rfl⟩
      · exact .snapshotted actor
      · exact .failed _ e trivial
  | recover =>
      rcases respond_eq_handlerAnswer hanswer with ⟨state, -, rfl⟩ | ⟨e, rfl⟩
      · exact .recovered state
      · exact .failed _ e trivial
  | lastEvent =>
      simp only [Store.handleMessage, h.lastEvent_eq henv, respond] at hanswer
      rw [handlerAnswer_eq_ok hanswer]
      exact .lastEvent
  | lastEventNumber =>
      simp only [Store.handleMessage] at hanswer
      rw [handlerAnswer_eq_ok hanswer, ← UInt64.ofNat_toNat (x := store.eventCounter),
        h.counter]
      exact .lastEventNumber
  | getEvents start stop =>
      rw [h.getEvents_eq henv] at hanswer
      rw [handlerAnswer_eq_ok hanswer]
      exact .getEvents start stop
  | lastEventsFrom start =>
      simp only [Store.handleMessage, h.eventsIn_counter henv, respondEvents] at hanswer
      rw [handlerAnswer_eq_ok hanswer]
      exact .lastEventsFrom start
  | purge => exact absurd rfl hcommand

end Store.Logs

end Serving

section Linearizable

variable {P E Ev : Type} {pf : Platform P E} {password : Option Key}
  {cfg : RunnerConfig} {store : Store} {log : List E}
  {s : Messaging Store (StoreCommand P E) Ev (StoreResponse P E)}
  {seen : List (MessagingObs (StoreCommand P E) Ev (StoreResponse P E) ReadableEnv)}

/-- The replies of a store to the messages that were handled. -/
def servedReplies {χ : Type}
    (seen : List (MessagingObs (StoreCommand P E) Ev (StoreResponse P E) χ)) :
    List (Reply P E) :=
  (Messaging.handledMessages seen).map
    fun p => .answered p.1.message (handlerAnswer p.2)

/-- Requests that keep the log, of which so many store an event. -/
def KeepLog (bound : Nat)
    (es : List (Effect Nat (StoreRequest P E) (StoreResult P E))) : Prop :=
  (∀ e ∈ es, e.request.2 ≠ .purge) ∧ bound + persistedCount (es.map servedReply) < 2 ^ 64

/-- The log that the requests make of `log`. -/
def logAfter (log : List E)
    (es : List (Effect Nat (StoreRequest P E) (StoreResult P E))) : List E :=
  (es.map servedReply).foldl Reply.logged log

theorem length_logAfter_le (log : List E)
    (es : List (Effect Nat (StoreRequest P E) (StoreResult P E))) :
    (logAfter log es).length ≤ log.length + persistedCount (es.map servedReply) :=
  length_foldl_logged_le _ _

theorem logAfter_snoc (log : List E)
    (es : List (Effect Nat (StoreRequest P E) (StoreResult P E)))
    (e : Effect Nat (StoreRequest P E) (StoreResult P E)) :
    logAfter log (es ++ [e]) = Reply.logged (logAfter log es) (servedReply e) := by
  unfold logAfter
  rw [List.map_append, List.foldl_append]
  rfl

theorem KeepLog.before {bound : Nat}
    {es : List (Effect Nat (StoreRequest P E) (StoreResult P E))}
    {e : Effect Nat (StoreRequest P E) (StoreResult P E)}
    (h : KeepLog bound (es ++ [e])) : KeepLog bound es := by
  obtain ⟨hpurge, hcount⟩ := h
  rw [List.map_append, persistedCount_append] at hcount
  exact ⟨fun e' he' => hpurge e' (List.mem_append_left _ he'), by omega⟩

/-- One request keeps the log of the store. -/
theorem Store.Logs.request (hpf : pf.Inverts) {base : List E}
    {es : List (Effect Nat (StoreRequest P E) (StoreResult P E))}
    {e : Effect Nat (StoreRequest P E) (StoreResult P E)} {store' : Store}
    (hkeep : KeepLog base.length (es ++ [e]))
    (h : store.Logs pf password (logAfter base es))
    (hserves : (storeCode pf (Subtype.val : ReadableEnv → Env)).object.serves store
      e.request e.response store') :
    ServesLog (logAfter base es) e.request.2 e.response (logAfter base (es ++ [e])) ∧
      store'.Logs pf password (logAfter base (es ++ [e])) := by
  obtain ⟨⟨env, henv⟩, hcode⟩ := hserves
  have hhandle : store.handleMessage pf env e.request.2 =
      (handlerAnswer e.response, store') := storeCode_eq_some hcode
  have hanswer := congrArg Prod.fst hhandle
  have hcommand := hkeep.1 e (List.mem_append_right _ (List.mem_singleton_self e))
  have hlength := length_logAfter_le base es
  have hbound := hkeep.before.2
  have heffect := Store.handleMessage_effect pf env store e.request.2
  rw [hhandle] at heffect
  rw [logAfter_snoc]
  exact ⟨h.serves henv hcommand hanswer,
    h.effect hpf henv (by omega) hcommand heffect⟩

/-- The store holds the log that the requests have made of the first one. -/
theorem serves_log (hpf : pf.Inverts) (hstart : store.Logs pf password log)
    {es : List (Effect Nat (StoreRequest P E) (StoreResult P E))} {store' : Store}
    (h : Serves (storeCode pf (Subtype.val : ReadableEnv → Env)).object store es store')
    (hkeep : KeepLog log.length es) :
    Serves (logObject P E) log es (logAfter log es) ∧
      store'.Logs pf password (logAfter log es) := by
  obtain ⟨b, hserves, rfl, hlogs⟩ := Serves.abstracts (A := logObject P E)
    (R := fun es store b => b = logAfter log es ∧ store.Logs pf password b)
    (G := KeepLog log.length) ⟨rfl, hstart⟩ (fun _ _ => KeepLog.before)
    (by
      rintro es t u b ⟨hb, hlogs⟩ ⟨hook, env, hmove⟩
      cases hmove
      exact ⟨hb, hlogs⟩)
    (by
      rintro es e t u b hkeep ⟨rfl, hlogs⟩ hstep
      obtain ⟨hlog, hlogs'⟩ := hlogs.request hpf hkeep hstep
      exact ⟨_, hlog, rfl, hlogs'⟩)
    h hkeep
  exact ⟨hserves, hlogs⟩

theorem purge_ne_panic (env : Env) (store : Store) :
    (store.handleMessage pf env .purge).1 ≠ .error .panic := by
  simp only [Store.handleMessage, Store.purge]
  split
  · simp [respond]
  · split <;> simp [respond]

/-- A panic leaves the events in the table. -/
theorem Store.Logs.holdsEvents_of_panics (hpf : pf.Inverts)
    (h : store.Logs pf password log) (hbound : log.length < 2 ^ 64) {store' : Store}
    {oracle : ReadableEnv} {hook : Hook (ActorMessage (StoreCommand P E))}
    (hpanics : (storeCode pf Subtype.val).Panics store oracle store' hook) :
    HoldsEvents pf password store'.events log := by
  obtain ⟨env, henv⟩ := oracle
  cases hook with
  | handleMessage m =>
      have hhandle : store.handleMessage pf env m.message =
          (.error .panic, store') := storeCode_eq_none hpanics
      have hcommand : m.message ≠ .purge := by
        intro hpurge
        rw [hpurge] at hhandle
        exact purge_ne_panic env store (congrArg Prod.fst hhandle)
      have heffect := Store.handleMessage_effect pf env store m.message
      rw [hhandle] at heffect
      have hlogs := h.effect hpf henv hbound hcommand heffect
      rw [Reply.logged_of_ne (by simp)] at hlogs
      exact hlogs.holds
  | _ => cases hpanics

/-- The effects of a run are the handled messages. -/
theorem map_servedReply {χ : Type}
    (seen : List (MessagingObs (StoreCommand P E) Ev (StoreResponse P E) χ)) :
    ((Messaging.handledMessages seen).map
      fun p => (⟨p.1.rsvp, (p.1.sender, p.1.message), p.2⟩ :
        Effect Nat (StoreRequest P E) (StoreResult P E))).map servedReply =
      servedReplies seen := by
  rw [List.map_map]
  rfl

theorem keepLog_of_conversation {bound : Nat} (h : s.Conversation seen)
    (hpurge : ∀ m ∈ Messaging.acceptedMessages seen, m.message ≠ .purge)
    (hcount : bound + persistedCount (servedReplies seen) < 2 ^ 64) :
    KeepLog bound ((Messaging.handledMessages seen).map
      fun p => ⟨p.1.rsvp, (p.1.sender, p.1.message), p.2⟩) := by
  refine ⟨fun e he => ?_, by rwa [map_servedReply]⟩
  obtain ⟨p, hp, rfl⟩ := List.mem_map.mp he
  refine hpurge p.1 ?_
  rw [h.fifo]
  exact List.mem_append_left _ (List.mem_map.mpr ⟨p, hp, rfl⟩)

/-- The event table of a run holds the log that the commands have made. -/
theorem holdsEvents_of_execute (hpf : pf.Inverts)
    (hstart : store.Logs pf password log)
    {inputs : List (MessagingInput (StoreCommand P E) Ev ReadableEnv)}
    (hrun : execute (Messaging.step cfg (storeCode pf Subtype.val)) (.start store)
      inputs = some (s, seen))
    (hpurge : ∀ m ∈ Messaging.acceptedMessages seen, m.message ≠ .purge)
    (hcount : log.length + persistedCount (servedReplies seen) < 2 ^ 64) :
    HoldsEvents pf password s.actor.events
      ((servedReplies seen).foldl Reply.logged log) := by
  obtain ⟨hconversation, b, hpointed, halive, hpanicked⟩ :=
    Messaging.marked_of_execute hrun
  have hkeep := keepLog_of_conversation hconversation hpurge hcount
  have hserved := hpointed.serves
  rw [Messaging.effects_marks] at hserved
  obtain ⟨-, hlogs⟩ := serves_log hpf hstart hserved hkeep
  rw [logAfter, map_servedReply] at hlogs
  cases hgone : s.panicked with
  | false =>
      rw [halive hgone]
      exact hlogs.holds
  | true =>
      obtain ⟨hook, oracle, hpanics⟩ := hpanicked hgone
      have hlength := length_foldl_logged_le (servedReplies seen) log
      exact hlogs.holdsEvents_of_panics hpf (by omega) hpanics

/-- **A store is a linearizable event log.**  Started on the tables of some log,
and asked by any number of callers for anything but a purge while events can be
read, the store gives every caller an answer of the event log; the answers are
those of one command after the other, in an order that respects real time, and
the event table always holds the log that the commands so far have made, also
after a panic. -/
theorem store_linearizable (hpf : pf.Inverts) (hstart : store.Logs pf password log)
    {inputs : List (MessagingInput (StoreCommand P E) Ev ReadableEnv)}
    (hrun : execute (Messaging.step cfg (storeCode pf Subtype.val)) (.start store)
      inputs = some (s, seen))
    (hpurge : ∀ m ∈ Messaging.acceptedMessages seen, m.message ≠ .purge)
    (hcount : log.length + persistedCount (servedReplies seen) < 2 ^ 64) :
    Linearizes (logObject P E) log ((servedReplies seen).foldl Reply.logged log)
        (callHistory (Messaging.marks seen))
        ((Messaging.handledMessages seen).map
          fun p => ⟨p.1.rsvp, (p.1.sender, p.1.message), p.2⟩) ∧
      HoldsEvents pf password s.actor.events
        ((servedReplies seen).foldl Reply.logged log) := by
  obtain ⟨hconversation, b, hpointed, -⟩ := Messaging.marked_of_execute hrun
  have hlinear := hpointed.linearizes
  rw [Messaging.effects_marks] at hlinear
  obtain ⟨hserves, -⟩ := serves_log hpf hstart hlinear.serves
    (keepLog_of_conversation hconversation hpurge hcount)
  rw [logAfter, map_servedReply] at hserves
  exact ⟨hlinear.of_serves hserves,
    holdsEvents_of_execute hpf hstart hrun hpurge hcount⟩

end Linearizable

section Lives

variable {P E Ev : Type} {pf : Platform P E} {password : Option Key}
  {cfg : RunnerConfig}
  {seen : List (MessagingObs (StoreCommand P E) Ev (StoreResponse P E) ReadableEnv)}

/-- Who waited for a message that stored an event, and the event. -/
def storedEvent :
    ActorMessage (StoreCommand P E) × StoreResult P E → Option (Option Nat × E)
  | (⟨.persist event, _, rsvp⟩, .ok .persisted) => some (rsvp, event)
  | _ => none

/-- The events that were stored, in order. -/
def storedEvents {χ : Type}
    (seen : List (MessagingObs (StoreCommand P E) Ev (StoreResponse P E) χ)) :
    List (Option Nat × E) :=
  (Messaging.handledMessages seen).filterMap storedEvent

/-- What a store of a `Full` actor is asked. -/
def StoreCommand.KeepsAll : StoreCommand P E → Prop
  | .purge | .persistLight _ _ => False
  | _ => True

/-- One life of the actor of a store, from its creation on; it may end anywhere. -/
structure StoreLife (P E Ev : Type) where
  creation : ReadableEnv
  inputs : List (MessagingInput (StoreCommand P E) Ev ReadableEnv)

variable (pf password cfg) in
/-- A life on the tables that the one before has left. -/
def StoreLife.run (tables : Tables) (life : StoreLife P E Ev) :
    Option (Tables ×
      List (List (MessagingObs (StoreCommand P E) Ev (StoreResponse P E)
        ReadableEnv))) :=
  match Store.new life.creation.val tables password with
  | .error _ => some (tables, [])
  | .ok store =>
      (execute (Messaging.step cfg (storeCode pf Subtype.val)) (.start store)
        life.inputs).map fun (s, seen) => (s.actor.toTables, [seen])

theorem logged_of_keepsAll
    {p : ActorMessage (StoreCommand P E) × StoreResult P E}
    (h : p.1.message.KeepsAll) (log : List E) :
    Reply.logged log (.answered p.1.message (handlerAnswer p.2)) =
      log ++ (storedEvent p).toList.map Prod.snd := by
  obtain ⟨⟨command, sender, rsvp⟩, result⟩ := p
  cases command with
  | persist event =>
      cases result with
      | error e => simp [Reply.logged, storedEvent, handlerAnswer]
      | ok response =>
          cases response <;> simp [Reply.logged, storedEvent, handlerAnswer]
  | persistLight event actor => exact h.elim
  | _ => simp [Reply.logged, storedEvent]

/-- Without light events the log is made of the events that were stored. -/
theorem logged_storedEvents
    (hkeeps : ∀ p ∈ Messaging.handledMessages seen, p.1.message.KeepsAll)
    (log : List E) :
    (servedReplies seen).foldl Reply.logged log =
      log ++ (storedEvents seen).map Prod.snd := by
  unfold servedReplies storedEvents
  generalize Messaging.handledMessages seen = handled at hkeeps ⊢
  induction handled generalizing log with
  | nil => simp
  | cons p handled ih =>
      have hfirst := logged_of_keepsAll (hkeeps p List.mem_cons_self) log
      have hrest := ih (log ++ (storedEvent p).toList.map Prod.snd)
        fun q hq => hkeeps q (List.mem_cons_of_mem p hq)
      rw [List.map_cons, List.foldl_cons, hfirst, hrest, List.append_assoc,
        List.filterMap_cons]
      cases storedEvent p <;> simp

/-- A stored event is a persisted one. -/
theorem length_storedEvents_le
    (seens : List (List (MessagingObs (StoreCommand P E) Ev (StoreResponse P E)
      ReadableEnv))) :
    (seens.flatMap storedEvents).length ≤
      persistedCount (seens.flatMap servedReplies) := by
  have hone : ∀ p : ActorMessage (StoreCommand P E) × StoreResult P E,
      (storedEvent p).isSome →
        Reply.isPersisted (.answered p.1.message (handlerAnswer p.2) : Reply P E) := by
    intro p hp
    unfold storedEvent at hp
    split at hp
    · rfl
    · contradiction
  unfold storedEvents servedReplies persistedCount
  rw [← List.filterMap_flatMap, ← List.map_flatMap, List.length_filterMap_eq_countP,
    List.countP_map]
  exact List.countP_mono_left fun p _ => hone p

/-- A life appends to the log what it stores. -/
theorem StoreLife.holds (hpf : pf.Inverts) {tables tables' : Tables} {log : List E}
    {life : StoreLife P E Ev}
    {seens : List (List (MessagingObs (StoreCommand P E) Ev (StoreResponse P E)
      ReadableEnv))}
    (hholds : HoldsEvents pf password tables.events log)
    (hrun : life.run pf password cfg tables = some (tables', seens))
    (hkeeps : ∀ seen ∈ seens, ∀ m ∈ Messaging.acceptedMessages seen,
      m.message.KeepsAll)
    (hcount : log.length + persistedCount (seens.flatMap servedReplies) < 2 ^ 64) :
    HoldsEvents pf password tables'.events
      (log ++ (seens.flatMap storedEvents).map Prod.snd) := by
  unfold StoreLife.run at hrun
  split at hrun
  case h_1 =>
    cases hrun
    simpa using hholds
  case h_2 store hnew =>
    obtain ⟨⟨s, seen⟩, hexecute, heq⟩ := Option.map_eq_some_iff.mp hrun
    cases heq
    rw [List.flatMap_singleton] at hcount ⊢
    have hkeep : ∀ m ∈ Messaging.acceptedMessages seen, m.message.KeepsAll :=
      hkeeps seen (List.mem_singleton_self seen)
    have hstart := Store.logs_of_new life.creation.property hholds (by omega) hnew
    have hend := holdsEvents_of_execute hpf hstart hexecute
      (fun m hm hpurge => by
        have hall := hkeep m hm
        rw [hpurge] at hall
        exact hall)
      hcount
    rw [logged_storedEvents] at hend
    · exact hend
    · intro p hp
      refine hkeep p.1 ?_
      rw [(Messaging.conversation_of_execute hexecute).fifo]
      exact List.mem_append_left _ (List.mem_map.mpr ⟨p, hp, rfl⟩)

theorem rsvp_of_storedEvent
    {p : ActorMessage (StoreCommand P E) × StoreResult P E} {q : Option Nat × E}
    (h : storedEvent p = some q) : q.1 = p.1.rsvp := by
  unfold storedEvent at h
  split at h
  · cases h
    rfl
  · contradiction

/-- An event whose `Persist` was answered is stored, and just once. -/
theorem storedEvents_of_returned
    {s : Messaging Store (StoreCommand P E) Ev (StoreResponse P E)}
    (h : s.Conversation seen) {call : Nat} {event : E}
    {m : ActorMessage (StoreCommand P E)}
    (hreturned : .returned call (.ok .persisted) ∈ seen)
    (haccepted : m ∈ Messaging.acceptedMessages seen) (hrsvp : m.rsvp = some call)
    (hmessage : m.message = .persist event) :
    (storedEvents seen).filter (fun p => p.1 = some call) = [(some call, event)] := by
  have hcall := (h.returned call (.ok .persisted)).mp hreturned
  obtain ⟨m', hhandled, hrsvp'⟩ := (h.got call (.ok .persisted)).mp (Or.inr hcall)
  obtain ⟨before, after, hsplit⟩ := List.append_of_mem hhandled
  have hfifo : Messaging.acceptedMessages seen =
      before.map Prod.fst ++ m' :: (after.map Prod.fst ++ s.runner.pendingMessages) := by
    rw [h.fifo, hsplit]
    simp
  have hother := h.rsvp_ne hfifo hrsvp'
  -- the message that was accepted for the call is the one that was handled
  have hsame : m' = m := by
    rw [hfifo] at haccepted
    rcases List.mem_append.mp haccepted with hbefore | hrest
    · exact absurd hrsvp (hother m (List.mem_append_left _ hbefore))
    · rcases List.mem_cons.mp hrest with heq | hafter
      · exact heq.symm
      · exact absurd hrsvp (hother m (List.mem_append_right _ hafter))
  subst hsame
  have hnone : ∀ handled : List (ActorMessage (StoreCommand P E) × StoreResult P E),
      (∀ p ∈ handled, p ∈ before ∨ p ∈ after) →
      (handled.filterMap storedEvent).filter (fun p => p.1 = some call) = [] := by
    intro handled hmem
    refine List.filter_eq_nil_iff.mpr fun q hq hfst => ?_
    obtain ⟨p, hp, hstored⟩ := List.mem_filterMap.mp hq
    refine hother p.1 ?_ ((rsvp_of_storedEvent hstored).symm.trans (by simpa using hfst))
    rcases hmem p hp with hp | hp
    · exact List.mem_append_left _ (List.mem_map.mpr ⟨p, hp, rfl⟩)
    · exact List.mem_append_right _
        (List.mem_append_left _ (List.mem_map.mpr ⟨p, hp, rfl⟩))
  have hone : storedEvent (m', (.ok .persisted : StoreResult P E)) =
      some (some call, event) := by
    obtain ⟨message, sender, rsvp⟩ := m'
    cases hrsvp
    cases hmessage
    rfl
  rw [storedEvents, hsplit, List.filterMap_append, List.filter_append,
    List.filterMap_cons, hone, hnone before fun _ => Or.inl]
  simp [hnone after fun _ => Or.inr]

/-- Every life has had a conversation. -/
theorem StoreLife.conversation {tables tables' : Tables} {life : StoreLife P E Ev}
    {seens : List (List (MessagingObs (StoreCommand P E) Ev (StoreResponse P E)
      ReadableEnv))}
    (hrun : life.run pf password cfg tables = some (tables', seens)) :
    ∀ seen ∈ seens,
      ∃ s : Messaging Store (StoreCommand P E) Ev (StoreResponse P E),
        s.Conversation seen := by
  unfold StoreLife.run at hrun
  split at hrun
  case h_1 =>
    cases hrun
    simp
  case h_2 store hnew =>
    obtain ⟨⟨s, seen⟩, hexecute, heq⟩ := Option.map_eq_some_iff.mp hrun
    cases heq
    intro seen' hmem
    cases List.mem_singleton.mp hmem
    exact ⟨s, Messaging.conversation_of_execute hexecute⟩

theorem StoreLife.holds_of_execute (hpf : pf.Inverts)
    {lives : List (StoreLife P E Ev)} {tables : Tables}
    {seens : List (List (MessagingObs (StoreCommand P E) Ev (StoreResponse P E)
      ReadableEnv))}
    (hrun : execute (StoreLife.run pf password cfg) ⟨∅, none⟩ lives =
      some (tables, seens)) :
    ((∀ seen ∈ seens, ∀ m ∈ Messaging.acceptedMessages seen, m.message.KeepsAll) →
      persistedCount (seens.flatMap servedReplies) < 2 ^ 64 →
      HoldsEvents pf password tables.events
        ((seens.flatMap storedEvents).map Prod.snd)) ∧
    ∀ seen ∈ seens,
      ∃ s : Messaging Store (StoreCommand P E) Ev (StoreResponse P E),
        s.Conversation seen := by
  refine execute_history (G := fun _ _ => True)
    (P := fun (tables : Tables) (seens : List (List (MessagingObs (StoreCommand P E)
        Ev (StoreResponse P E) ReadableEnv))) =>
      ((∀ seen ∈ seens, ∀ m ∈ Messaging.acceptedMessages seen,
          m.message.KeepsAll) →
        persistedCount (seens.flatMap servedReplies) < 2 ^ 64 →
        HoldsEvents pf password tables.events
          ((seens.flatMap storedEvents).map Prod.snd)) ∧
      ∀ seen ∈ seens,
        ∃ s : Messaging Store (StoreCommand P E) Ev (StoreResponse P E),
          s.Conversation seen)
    ?_ [] ⟨fun _ _ => HoldsEvents.empty pf password, by simp⟩ (stepsMeet_true _ _) hrun
  rintro tables seens life tables' more ⟨hholds, hconversation⟩ - hstep
  constructor
  · intro hkeeps hcount
    rw [List.flatMap_append, persistedCount_append] at hcount
    have hbefore : ∀ seen ∈ seens, ∀ m ∈ Messaging.acceptedMessages seen,
        m.message.KeepsAll := fun seen hmem =>
      hkeeps seen (List.mem_append_left _ hmem)
    have hlength := length_storedEvents_le seens
    rw [List.flatMap_append, List.map_append]
    refine life.holds hpf (hholds hbefore (by omega)) hstep
      (fun seen hmem => hkeeps seen (List.mem_append_right _ hmem)) ?_
    rw [List.length_map]
    omega
  · intro seen hmem
    rcases List.mem_append.mp hmem with hmem | hmem
    · exact hconversation seen hmem
    · exact life.conversation hstep seen hmem

/-- **No event that was acknowledged is lost, and none is stored twice.**  Over
any number of lives of a store, each with any number of callers and cut off
anywhere, the event table holds the events that were stored in all of them, in
the order of their handling, and for each `Persist` that was answered to its
caller there is one of them. -/
theorem acknowledged_events_survive (hpf : pf.Inverts)
    {lives : List (StoreLife P E Ev)} {tables : Tables}
    {seens : List (List (MessagingObs (StoreCommand P E) Ev (StoreResponse P E)
      ReadableEnv))}
    (hrun : execute (StoreLife.run pf password cfg) ⟨∅, none⟩ lives =
      some (tables, seens))
    (hkeeps : ∀ seen ∈ seens, ∀ m ∈ Messaging.acceptedMessages seen,
      m.message.KeepsAll)
    (hcount : persistedCount (seens.flatMap servedReplies) < 2 ^ 64) :
    HoldsEvents pf password tables.events
        ((seens.flatMap storedEvents).map Prod.snd) ∧
      ∀ seen ∈ seens, ∀ call event, .returned call (.ok .persisted) ∈ seen →
        (∃ m ∈ Messaging.acceptedMessages seen, m.rsvp = some call ∧
          m.message = .persist event) →
        (storedEvents seen).filter (fun p => p.1 = some call) =
          [(some call, event)] := by
  obtain ⟨hholds, hconversation⟩ := StoreLife.holds_of_execute hpf hrun
  refine ⟨hholds hkeeps hcount, ?_⟩
  rintro seen hmem call event hreturned ⟨m, haccepted, hrsvp, hmessage⟩
  obtain ⟨s, h⟩ := hconversation seen hmem
  exact storedEvents_of_returned h hreturned haccepted hrsvp hmessage

end Lives

namespace CounterActor

/-- The calls of the witnesses can read events. -/
def readable : ReadableEnv := ⟨env, env_healthy.onlyWritesFail.eventsReadable⟩

/-- A store without a password over empty tables. -/
def emptyStore : Store where
  events := ∅
  states := none
  eventCounter := 0
  stateCounter := 0
  keyBox := none

theorem emptyStore_logs : emptyStore.Logs platform none [] :=
  ⟨rfl, HoldsEvents.empty platform none, rfl⟩

/-- The actor starts, two callers ask, and both messages are handled. -/
def twoPersists : List (MessagingInput (StoreCommand UInt8 UInt8) Unit ReadableEnv) :=
  [.runs (.choice .proceed) readable, .runs (.choice (.returns (.ok ()))) readable,
    .runs (.choice .proceed) readable,
    .asks 0 Messaging.callerPath (.persist 1),
    .asks 1 Messaging.callerPath (.persist 2),
    .runs (.choice .takeMessage) readable,
    .runs (.choice (.returns (.ok ()))) readable, .resumes 0,
    .runs (.choice .takeMessage) readable,
    .runs (.choice (.returns (.ok ()))) readable, .resumes 1]

/-- Two callers persist the events 1 and 2: the log is `[1, 2]`. -/
theorem twoPersists_linearizable :
    ∃ s seen, execute (Messaging.step Messaging.plainActor
          (storeCode platform (Subtype.val : ReadableEnv → Env)))
        (.start emptyStore) twoPersists = some (s, seen) ∧
      Linearizes (logObject UInt8 UInt8) [] [1, 2]
        (callHistory (Messaging.marks seen))
        [⟨some 0, (Messaging.callerPath, .persist 1), .ok .persisted⟩,
          ⟨some 1, (Messaging.callerPath, .persist 2), .ok .persisted⟩] ∧
      HoldsEvents platform none s.actor.events [1, 2] := by
  obtain ⟨⟨s, seen⟩, hrun⟩ := Option.isSome_iff_exists.mp
    (show (execute (Messaging.step Messaging.plainActor
        (storeCode platform (Subtype.val : ReadableEnv → Env)))
      (.start emptyStore) twoPersists).isSome from rfl)
  have hhandled : Messaging.handledMessages seen =
      [(⟨.persist 1, Messaging.callerPath, some 0⟩, .ok .persisted),
        (⟨.persist 2, Messaging.callerPath, some 1⟩, .ok .persisted)] := by
    cases hrun
    rfl
  have haccepted : Messaging.acceptedMessages seen =
      [⟨.persist 1, Messaging.callerPath, some 0⟩,
        ⟨.persist 2, Messaging.callerPath, some 1⟩] := by
    cases hrun
    rfl
  have hlinear := store_linearizable platform_roundTrips.inverts emptyStore_logs hrun
    (by simp [haccepted]) (by
      rw [servedReplies, hhandled]
      decide)
  simp only [servedReplies, hhandled] at hlinear
  exact ⟨s, seen, hrun, hlinear⟩

/-- The store is created again, and a third event is persisted and answered. -/
def oneMorePersist : List (MessagingInput (StoreCommand UInt8 UInt8) Unit ReadableEnv) :=
  [.runs (.choice .proceed) readable, .runs (.choice (.returns (.ok ()))) readable,
    .runs (.choice .proceed) readable,
    .asks 0 Messaging.callerPath (.persist 3),
    .runs (.choice .takeMessage) readable,
    .runs (.choice (.returns (.ok ()))) readable, .resumes 0]

theorem twoLives_survive :
    ∃ tables seens, execute (StoreLife.run platform none Messaging.plainActor)
        ⟨∅, none⟩ [⟨readable, twoPersists⟩, ⟨readable, oneMorePersist⟩] =
          some (tables, seens) ∧
      HoldsEvents platform none tables.events [1, 2, 3] ∧
      ∀ seen ∈ seens, .returned 0 (.ok .persisted) ∈ seen := by
  obtain ⟨⟨tables, seens⟩, hrun⟩ := Option.isSome_iff_exists.mp
    (show (execute (StoreLife.run platform none Messaging.plainActor)
      ⟨∅, none⟩ [⟨readable, twoPersists⟩, ⟨readable, oneMorePersist⟩]).isSome
        from rfl)
  have haccepted : seens.map Messaging.acceptedMessages =
      [[⟨.persist 1, Messaging.callerPath, some 0⟩,
          ⟨.persist 2, Messaging.callerPath, some 1⟩],
        [⟨.persist 3, Messaging.callerPath, some 0⟩]] := by
    cases hrun
    rfl
  have hreplies : seens.flatMap servedReplies =
      [.answered (.persist 1) (.ok .persisted),
        .answered (.persist 2) (.ok .persisted),
        .answered (.persist 3) (.ok .persisted)] := by
    cases hrun
    rfl
  have hstored : seens.flatMap storedEvents =
      [(some 0, 1), (some 1, 2), (some 0, 3)] := by
    cases hrun
    rfl
  have hkeeps : ∀ ms ∈ seens.map Messaging.acceptedMessages, ∀ m ∈ ms,
      m.message.KeepsAll := by
    rw [haccepted]
    simp [StoreCommand.KeepsAll]
  have hsurvive := acknowledged_events_survive platform_roundTrips.inverts hrun
    (fun seen hseen => hkeeps _ (List.mem_map_of_mem hseen)) (by
      rw [hreplies]
      decide)
  rw [hstored] at hsurvive
  refine ⟨tables, seens, hrun, hsurvive.1, ?_⟩
  cases hrun
  simp

end CounterActor

end Persistence
end Rush
