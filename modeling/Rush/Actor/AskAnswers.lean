import Rush.Actor.Messaging
import Rush.Actor.StopRequests

/-!
# What becomes of messages and requests

The mailbox is a queue: what is handled is what was accepted, in the same order
and each message once, and what is not handled yet is in the mailbox or in the
hands of `handle_message`.  A call of `ask` waits exactly while its message is
there, it gets the result of its own message, and no call waits for a runner
that has gone.
-/

namespace Rush
namespace Actor

open Foundation

namespace Runner

variable {M Ev : Type} {cfg : RunnerConfig} {r r' : Runner M Ev}
  {o : List (Obs M Ev)} {i : Input M Ev}

theorem inHook_of_finishes {hook : Hook M} (h : r.finishes i = some hook) :
    r.phase = .inHook hook := by
  unfold finishes at h
  split at h
  · split at h
    · cases h
      assumption
    · contradiction
  · split at h
    · cases h
      assumption
    · contradiction
  · contradiction

/-- `handle_message` returns: its message is no longer pending. -/
theorem pending_of_finishes {m : M} (hstep : step cfg r i = some (r', o))
    (hfinish : r.finishes i = some (.handleMessage m)) :
    r.pendingMessages = m :: r'.pendingMessages ∧ r'.phase = .selecting := by
  have hphase := inHook_of_finishes hfinish
  cases i with
  | arrival arrival => simp [finishes] at hfinish
  | choice choice =>
      change r.advance cfg choice = some (r', o) at hstep
      cases choice with
      | returns result =>
          simp only [advance, hphase, hookReturns] at hstep
          cases hstep
          simp [pendingMessages, inHand, hphase]
      | answers action => simp [advance, hphase] at hstep
      | _ => simp [finishes] at hfinish

/-- An arrival other than a message. -/
theorem pending_of_arrival {arrival : Arrival M}
    (h : r.arrive arrival = some r') (hinput : ∀ m, arrival ≠ .message m) :
    r'.pendingMessages = r.pendingMessages := by
  cases arrival with
  | message m => exact absurd rfl (hinput m)
  | sendersDropped =>
      cases h
      rfl
  | _ =>
      simp only [arrive] at h
      split at h
      · cases h
        rfl
      · contradiction

theorem pending_of_operate {op : ContextOp Ev} (h : r.operate op = some r') :
    r'.pendingMessages = r.pendingMessages := by
  cases op with
  | stop reply =>
      simp only [operate] at h
      split at h
      · cases h
        rfl
      · contradiction
  | _ =>
      cases h
      rfl

/-- While a message is handled, and as long as `handle_message` does not return,
nothing becomes of the others. -/
theorem pending_of_handling {m : M} {choice : Choice Ev}
    (hphase : r.phase = .inHook (.handleMessage m))
    (h : r.advance cfg choice = some (r', o))
    (hfinish : ∀ m, r.finishes (.choice choice) ≠ some (.handleMessage m)) :
    r'.pendingMessages = r.pendingMessages := by
  cases choice with
  | operation op =>
      simp only [advance, hphase] at h
      obtain ⟨_, hop, heq⟩ := Option.map_eq_some_iff.mp h
      cases heq
      exact pending_of_operate hop
  | returns result => exact absurd (by simp [finishes, hphase]) (hfinish m)
  | _ => simp [advance, hphase] at h

theorem pending_of_dispatch (cfg : RunnerConfig) (hphase : r.phase = .dispatch) :
    (r.dispatch cfg).1.pendingMessages = r.pendingMessages := by
  unfold dispatch
  cases r.lifecycle with
  | restarted =>
      simp only [applySupervisionStrategy]
      split
      · simp [pendingMessages, inHand, hphase]
      · split <;> simp [pendingMessages, inHand, hphase]
  | failed =>
      simp only
      split <;> simp [pendingMessages, inHand, hphase]
  | _ => simp [pendingMessages, inHand, hphase]

theorem pending_of_hookReturns {hook : Hook M} {result : Except ActorError Unit}
    (hphase : r.phase = .inHook hook) (hhook : ∀ m, hook ≠ .handleMessage m)
    (h : r.hookReturns hook result = some (r', o)) :
    r'.pendingMessages = r.pendingMessages := by
  cases hook with
  | handleMessage m => exact absurd rfl (hhook m)
  | onChildFault e sender => cases result <;> contradiction
  | _ =>
      cases result <;> cases h <;>
        simp [pendingMessages, inHand, hphase, emitFail]

/-- A branch of `select!` takes the first message in hand, or none. -/
theorem pending_of_select {choice : Choice Ev} (hphase : r.phase = .selecting)
    (h : r.select cfg choice = some (r', o)) :
    r'.pendingMessages = r.pendingMessages := by
  cases choice with
  | takeStop =>
      simp only [select] at h
      split at h
      · contradiction
      · cases h
        simp [pendingMessages, inHand, hphase]
  | takeMessage =>
      simp only [select] at h
      split at h
      case h_1 hqueue =>
        cases h
        simp [pendingMessages, inHand, hphase, hqueue]
      case h_2 => contradiction
  | takeChildError =>
      simp only [select] at h
      split at h
      · cases h
        simp [pendingMessages, inHand, hphase]
      · cases h
        simp [pendingMessages, inHand, hphase]
      · contradiction
  | takeInner =>
      simp only [select] at h
      split at h
      · cases h
        simp [pendingMessages, inHand, hphase]
      · cases h
        simp [pendingMessages, inHand, hphase]
      · split at h <;> cases h <;> simp [pendingMessages, inHand, hphase]
      · contradiction
  | mailboxClosed =>
      simp only [select] at h
      split at h
      · cases h
        simp [pendingMessages, inHand, hphase]
      · contradiction
  | _ => contradiction

/-- A choice that ends no `handle_message` leaves the pending messages alone. -/
theorem pending_of_advance {choice : Choice Ev}
    (h : r.advance cfg choice = some (r', o))
    (hfinish : ∀ m, r.finishes (.choice choice) ≠ some (.handleMessage m)) :
    r'.pendingMessages = r.pendingMessages := by
  by_cases hhandling : ∃ m, r.phase = .inHook (.handleMessage m)
  · obtain ⟨m, hphase⟩ := hhandling
    exact pending_of_handling hphase h hfinish
  unfold advance at h
  split at h
  case h_1 hphase =>
    have hpair : r.dispatch cfg = (r', o) := Option.some.inj h
    have hpending := pending_of_dispatch cfg hphase
    rwa [hpair] at hpending
  case h_2 hook op hphase =>
    obtain ⟨_, hop, heq⟩ := Option.map_eq_some_iff.mp h
    cases heq
    exact pending_of_operate hop
  case h_4 hphase =>
    refine pending_of_hookReturns hphase ?_ h
    rintro m rfl
    exact hhandling ⟨m, hphase⟩
  case h_5 hphase => exact pending_of_select hphase h
  case h_18 => contradiction
  case h_3 hphase | h_6 hphase | h_7 hphase | h_8 hphase | h_13 hphase
      | h_14 hphase | h_17 hphase =>
    cases h
    simp [pendingMessages, inHand, hphase]
  case h_9 hphase | h_10 hphase =>
    split at h
    · cases h
      simp [pendingMessages, inHand, hphase]
    · contradiction
  case h_11 hphase | h_12 hphase =>
    split at h
    · contradiction
    · cases h
      simp [pendingMessages, inHand, hphase]
  case h_15 hphase | h_16 hphase =>
    split at h
    · cases h
      simp [pendingMessages, inHand, hphase]
    · cases h
      simp [pendingMessages, inHand, hphase]

theorem pending_of_step (hstep : step cfg r i = some (r', o))
    (hinput : i.isMessage = false)
    (hfinish : ∀ m, r.finishes i ≠ some (.handleMessage m)) :
    r'.pendingMessages = r.pendingMessages := by
  cases i with
  | arrival arrival =>
      obtain ⟨_, harrive, heq⟩ := Option.map_eq_some_iff.mp hstep
      cases heq
      refine pending_of_arrival harrive ?_
      rintro m rfl
      contradiction
  | choice choice => exact pending_of_advance hstep hfinish

/-- A message that is accepted comes last. -/
theorem pending_of_message {m : M} (h : r.arrive (.message m) = some r') :
    r'.pendingMessages = r.pendingMessages ++ [m] ∧ r'.phase = r.phase := by
  simp only [arrive] at h
  split at h
  · cases h
    exact ⟨(List.append_assoc _ _ _).symm, rfl⟩
  · contradiction

end Runner

namespace Messaging

variable {σ Msg Ev Resp χ : Type} {cfg : RunnerConfig}
  {code : ActorCode σ Msg Resp χ} {s t : Messaging σ Msg Ev Resp}
  {i : MessagingInput Msg Ev χ} {seen o : List (MessagingObs Msg Ev Resp χ)}

section Lists

variable (seen o) (messages more : List (ActorMessage Msg))

@[simp] theorem acceptedMessages_append :
    acceptedMessages (seen ++ o) = acceptedMessages seen ++ acceptedMessages o :=
  List.filterMap_append

@[simp] theorem handledMessages_append :
    handledMessages (seen ++ o) = handledMessages seen ++ handledMessages o :=
  List.filterMap_append

@[simp] theorem askers_append :
    askers (messages ++ more) = askers messages ++ askers more :=
  List.filterMap_append

/-- Putting a message into the mailbox handles none. -/
theorem handledMessages_accepted (m : ActorMessage Msg) :
    handledMessages (seen ++ [.accepted m]) = handledMessages seen := by
  rw [handledMessages_append]
  exact List.append_nil _

variable {messages}

theorem mem_askers {call : Nat} :
    call ∈ askers messages ↔ ∃ m ∈ messages, m.rsvp = some call :=
  List.mem_filterMap

/-- The answer to a message concerns its own call only. -/
theorem answers_concat_iff
    {handled : List (ActorMessage Msg × Except ActorError Resp)}
    {m : ActorMessage Msg} {result result' : Except ActorError Resp} {call : Nat}
    (hcall : m.rsvp ≠ some call) :
    (∃ m', (m', result') ∈ handled ++ [(m, result)] ∧ m'.rsvp = some call) ↔
      ∃ m', (m', result') ∈ handled ∧ m'.rsvp = some call := by
  refine exists_congr fun m' => ?_
  rw [List.mem_append, List.mem_singleton, Prod.mk.injEq]
  constructor
  · rintro ⟨hold | ⟨rfl, -⟩, hrsvp⟩
    · exact ⟨hold, hrsvp⟩
    · exact absurd hrsvp hcall
  · exact fun hold => ⟨Or.inl hold.1, hold.2⟩

end Lists

/-- Observations that concern no message and no call. -/
structure Silent (o : List (MessagingObs Msg Ev Resp χ)) : Prop where
  accepted : acceptedMessages o = []
  handled : handledMessages o = []
  returned : ∀ call result, .returned call result ∉ o
  failed : ∀ call, .failed call ∉ o

theorem silent_runner (os : List (Obs (ActorMessage Msg) Ev)) :
    Silent (os.map .runner : List (MessagingObs Msg Ev Resp χ)) where
  accepted := by simp [acceptedMessages]
  handled := by simp [handledMessages]
  returned := by simp
  failed := by simp

theorem silent_hooked (hook : Hook (ActorMessage Msg)) (oracle : χ)
    (os : List (Obs (ActorMessage Msg) Ev)) :
    Silent (.hooked hook oracle :: os.map .runner :
      List (MessagingObs Msg Ev Resp χ)) where
  accepted := by simp [acceptedMessages]
  handled := by simp [handledMessages]
  returned := by simp
  failed := by simp

section Calls

variable (s) (call : Nat) {c : Ask Resp}

theorem set_calls (call' : Nat) :
    (s.set call c).calls call' = if call' = call then some c else s.calls call' :=
  Function.update_apply _ _ _ _

section Answer

variable (rsvp : Option Nat) (result : Except ActorError Resp)

theorem answer_calls : (s.answer rsvp result).calls call =
    if rsvp = some call then some (.answered result) else s.calls call := by
  cases rsvp with
  | none => simp [answer]
  | some asker => simp [answer, set_calls, eq_comm]

theorem answer_runner : (s.answer rsvp result).runner = s.runner := by
  cases rsvp <;> rfl

theorem isClosed_answer :
    (s.answer rsvp result).isClosed = s.isClosed := by
  cases rsvp <;> rfl

end Answer

variable {call}

/-- Dropping the channels concerns the calls that wait. -/
theorem map_dropped_iff {x : Option (Ask Resp)} (hwaits : c ≠ .waiting)
    (hdropped : c ≠ .dropped) : x.map dropped = some c ↔ x = some c := by
  cases x with
  | none => simp
  | some c' =>
      cases c' <;> simp [dropped, Ne.symm hwaits, Ne.symm hdropped]

theorem map_dropped_ne {x : Option (Ask Resp)} :
    x.map dropped ≠ some .waiting := by
  cases x with
  | none => simp
  | some c' => cases c' <;> simp [dropped]

variable (r : Runner (ActorMessage Msg) Ev)

theorem goesOn_calls_iff (hwaits : c ≠ .waiting) (hdropped : c ≠ .dropped) :
    (s.goesOn r).calls call = some c ↔ s.calls call = some c := by
  unfold goesOn
  split
  · exact map_dropped_iff hwaits hdropped
  · rfl

theorem goesOn_waiting_iff :
    (s.goesOn r).calls call = some .waiting ↔
      r.phase.isEnded = false ∧ s.calls call = some .waiting := by
  unfold goesOn
  cases hended : r.phase.isEnded with
  | true => exact iff_of_false map_dropped_ne (by simp)
  | false => simp

theorem goesOn_none_iff : (s.goesOn r).calls call = none ↔ s.calls call = none := by
  unfold goesOn
  split
  · exact Option.map_eq_none_iff
  · rfl

end Calls

/-- What the trace says of the messages and of the calls. -/
structure Conversation (s : Messaging σ Msg Ev Resp)
    (seen : List (MessagingObs Msg Ev Resp χ)) : Prop where
  fifo : acceptedMessages seen =
    (handledMessages seen).map Prod.fst ++ s.runner.pendingMessages
  once : (askers (acceptedMessages seen)).Nodup
  made : ∀ call ∈ askers (acceptedMessages seen), s.calls call ≠ none
  waiting : ∀ call, s.calls call = some .waiting ↔
    s.isClosed = false ∧ call ∈ askers s.runner.pendingMessages
  got : ∀ call result,
    (s.calls call = some (.answered result) ∨
        s.calls call = some (.returned result)) ↔
      ∃ m, (m, result) ∈ handledMessages seen ∧ m.rsvp = some call
  returned : ∀ call result, .returned call result ∈ seen ↔
    s.calls call = some (.returned result)
  failed : ∀ call, .failed call ∈ seen ↔ s.calls call = some .failed

namespace Conversation

theorem start (actor : σ) :
    Conversation (Messaging.start actor : Messaging σ Msg Ev Resp)
      ([] : List (MessagingObs Msg Ev Resp χ)) where
  fifo := rfl
  once := List.nodup_nil
  made call h := by simp [acceptedMessages, askers] at h
  waiting call := by
    simp [Messaging.start, Runner.create, Runner.pendingMessages, Runner.inHand,
      askers]
  got call result := by simp [Messaging.start, handledMessages]
  returned call result := by simp [Messaging.start]
  failed call := by simp [Messaging.start]

/-- The messages that were handled or are pending have been accepted. -/
theorem askers_eq (h : Conversation s seen) :
    askers (acceptedMessages seen) =
      askers ((handledMessages seen).map Prod.fst) ++
        askers s.runner.pendingMessages := by
  rw [h.fifo, askers_append]

theorem not_pending_of_handled (h : Conversation s seen)
    {m : ActorMessage Msg} {result : Except ActorError Resp} {call : Nat}
    (hmem : (m, result) ∈ handledMessages seen) (hcall : m.rsvp = some call) :
    call ∈ askers (acceptedMessages seen) ∧
      call ∉ askers s.runner.pendingMessages := by
  have hhandled : call ∈ askers ((handledMessages seen).map Prod.fst) :=
    mem_askers.mpr ⟨m, List.mem_map.mpr ⟨_, hmem, rfl⟩, hcall⟩
  have hnodup := h.once
  rw [h.askers_eq] at hnodup ⊢
  exact ⟨List.mem_append_left _ hhandled,
    fun hpending => (List.nodup_append'.mp hnodup).2.2 hhandled hpending⟩

/-- Of the accepted messages one is that of the call. -/
theorem rsvp_ne (h : Conversation s seen) {before after : List (ActorMessage Msg)}
    {m : ActorMessage Msg} {call : Nat}
    (hsplit : acceptedMessages seen = before ++ m :: after)
    (hcall : m.rsvp = some call) : ∀ m' ∈ before ++ after, m'.rsvp ≠ some call := by
  have hnodup := h.once
  have haskers : askers (before ++ m :: after) =
      askers before ++ call :: askers after := by
    simp [askers, hcall]
  rw [hsplit, haskers, List.nodup_middle, ← askers_append] at hnodup
  intro m' hm' hrsvp
  exact (List.nodup_cons.mp hnodup).1 (mem_askers.mpr ⟨m', hm', hrsvp⟩)

/-- A step that concerns no message. -/
theorem silent (h : Conversation s seen) (ho : Silent o)
    (hpending : t.runner.pendingMessages = s.runner.pendingMessages)
    (hcalls : ∀ call c, c ≠ .waiting → c ≠ .dropped →
      (t.calls call = some c ↔ s.calls call = some c))
    (hnone : ∀ call, t.calls call = none ↔ s.calls call = none)
    (hwaiting : ∀ call, t.calls call = some .waiting ↔
      t.isClosed = false ∧ s.calls call = some .waiting)
    (hclosed : t.isClosed = false → s.isClosed = false) :
    Conversation t (seen ++ o) := by
  have haccepted : acceptedMessages (seen ++ o) = acceptedMessages seen := by
    rw [acceptedMessages_append, ho.accepted, List.append_nil]
  have hhandled : handledMessages (seen ++ o) = handledMessages seen := by
    rw [handledMessages_append, ho.handled, List.append_nil]
  constructor
  · rw [haccepted, hhandled, hpending, h.fifo]
  · rw [haccepted]
    exact h.once
  · intro call hmem
    rw [haccepted] at hmem
    rw [Ne, hnone]
    exact h.made call hmem
  · intro call
    rw [hwaiting, h.waiting, hpending]
    exact ⟨fun hw => ⟨hw.1, hw.2.2⟩, fun hw => ⟨hw.1, hclosed hw.1, hw.2⟩⟩
  · intro call result
    rw [hhandled, hcalls _ _ (by simp) (by simp), hcalls _ _ (by simp) (by simp)]
    exact h.got call result
  · intro call result
    rw [List.mem_append, or_iff_left (ho.returned call result),
      hcalls _ _ (by simp) (by simp)]
    exact h.returned call result
  · intro call
    rw [List.mem_append, or_iff_left (ho.failed call),
      hcalls _ _ (by simp) (by simp)]
    exact h.failed call

/-- `tell` puts a message into the mailbox. -/
theorem tells {r : Runner (ActorMessage Msg) Ev} {m : ActorMessage Msg}
    (h : Conversation s seen) (hrsvp : m.rsvp = none)
    (harrive : s.runner.arrive (.message m) = some r) :
    Conversation { s with runner := r }
      (seen ++ [(.accepted m : MessagingObs Msg Ev Resp χ)]) := by
  obtain ⟨hpending, hphase⟩ := Runner.pending_of_message harrive
  have hnobody : askers [m] = [] := by simp [askers, hrsvp]
  have hclosed : isClosed { s with runner := r } = s.isClosed := by
    simp only [isClosed, hphase]
  have haccepted : acceptedMessages
      (seen ++ [(.accepted m : MessagingObs Msg Ev Resp χ)]) =
        acceptedMessages seen ++ [m] := acceptedMessages_append _ _
  have hhandled : handledMessages
      (seen ++ [(.accepted m : MessagingObs Msg Ev Resp χ)]) =
        handledMessages seen := handledMessages_accepted _ _
  constructor
  · rw [haccepted, hhandled, h.fifo, List.append_assoc]
    exact congrArg _ hpending.symm
  · rw [haccepted, askers_append, hnobody, List.append_nil]
    exact h.once
  · intro call hmem
    rw [haccepted, askers_append, hnobody, List.append_nil] at hmem
    exact h.made call hmem
  · intro call
    rw [hclosed, hpending, askers_append, hnobody, List.append_nil]
    exact h.waiting call
  · intro call result
    rw [hhandled]
    exact h.got call result
  · intro call result
    rw [List.mem_append, or_iff_left (by simp)]
    exact h.returned call result
  · intro call
    rw [List.mem_append, or_iff_left (by simp)]
    exact h.failed call

/-- `ask` puts a message into the mailbox and waits. -/
theorem asks {r : Runner (ActorMessage Msg) Ev} {m : ActorMessage Msg}
    {call : Nat} (h : Conversation s seen) (hcall : s.calls call = none)
    (hopen : s.isClosed = false) (hrsvp : m.rsvp = some call)
    (harrive : s.runner.arrive (.message m) = some r) :
    Conversation { s.set call .waiting with runner := r }
      (seen ++ [(.accepted m : MessagingObs Msg Ev Resp χ)]) := by
  obtain ⟨hpending, hphase⟩ := Runner.pending_of_message harrive
  have hasker : askers [m] = [call] := by simp [askers, hrsvp]
  have hnew : call ∉ askers (acceptedMessages seen) :=
    fun hmem => h.made call hmem hcall
  have hclosed : isClosed { s.set call .waiting with runner := r } = false := by
    rw [← hopen]
    simp only [isClosed, set, hphase]
  have haccepted : acceptedMessages
      (seen ++ [(.accepted m : MessagingObs Msg Ev Resp χ)]) =
        acceptedMessages seen ++ [m] := acceptedMessages_append _ _
  have hhandled : handledMessages
      (seen ++ [(.accepted m : MessagingObs Msg Ev Resp χ)]) =
        handledMessages seen := handledMessages_accepted _ _
  constructor
  · rw [haccepted, hhandled, h.fifo, List.append_assoc]
    exact congrArg _ hpending.symm
  · rw [haccepted, askers_append, hasker]
    exact List.nodup_append'.mpr ⟨h.once, List.nodup_singleton call,
      List.disjoint_singleton.mpr hnew⟩
  · intro call' hmem
    rw [haccepted, askers_append, hasker] at hmem
    simp only [set_calls]
    split
    · simp
    case isFalse hne =>
      rcases List.mem_append.mp hmem with hold | hnow
      · exact h.made call' hold
      · exact absurd (List.mem_singleton.mp hnow) hne
  · intro call'
    rw [hclosed, hpending, askers_append, hasker]
    simp only [set_calls, true_and, List.mem_append, List.mem_singleton]
    by_cases heq : call' = call
    · simp [heq]
    · simp only [heq, if_false, or_false]
      rw [h.waiting]
      exact and_iff_right hopen
  · intro call' result
    rw [hhandled, ← h.got]
    simp only [set_calls]
    by_cases heq : call' = call
    · subst heq
      simp [hcall]
    · simp [heq]
  · intro call' result
    rw [List.mem_append, or_iff_left (by simp), h.returned]
    simp only [set_calls]
    by_cases heq : call' = call
    · subst heq
      simp [hcall]
    · simp [heq]
  · intro call'
    rw [List.mem_append, or_iff_left (by simp), h.failed]
    simp only [set_calls]
    by_cases heq : call' = call
    · subst heq
      simp [hcall]
    · simp [heq]

/-- A call returns: its result is the one that the channel has brought, or an
error when there is none. -/
theorem returns {call : Nat} {c : Ask Resp} (h : Conversation s seen)
    (hwaits : s.calls call ≠ some .waiting) (hc : c ≠ .waiting)
    (hgot : ∀ result, (c = .answered result ∨ c = .returned result) ↔
      (s.calls call = some (.answered result) ∨
        s.calls call = some (.returned result)))
    (hreturned : ∀ call' result, .returned call' result ∈ o ↔
      call' = call ∧ c = .returned result)
    (hnotReturned : ∀ result, s.calls call ≠ some (.returned result))
    (hfailed : ∀ call', .failed call' ∈ o ↔ call' = call ∧ c = .failed)
    (hnotFailed : s.calls call ≠ some .failed)
    (haccepted : acceptedMessages o = []) (hhandled : handledMessages o = []) :
    Conversation (s.set call c) (seen ++ o) := by
  have hsame : acceptedMessages (seen ++ o) = acceptedMessages seen := by
    rw [acceptedMessages_append, haccepted, List.append_nil]
  have hdone : handledMessages (seen ++ o) = handledMessages seen := by
    rw [handledMessages_append, hhandled, List.append_nil]
  constructor
  · rw [hsame, hdone]
    exact h.fifo
  · rw [hsame]
    exact h.once
  · intro call' hmem
    rw [hsame] at hmem
    rw [set_calls]
    split
    · simp
    · exact h.made call' hmem
  · intro call'
    have hstill : (s.set call c).calls call' = some .waiting ↔
        s.calls call' = some .waiting := by
      rw [set_calls]
      split
      case isTrue heq =>
        subst heq
        exact iff_of_false (fun hw => hc (Option.some.inj hw)) hwaits
      case isFalse => rfl
    rw [hstill]
    exact h.waiting call'
  · intro call' result
    rw [hdone, ← h.got, set_calls]
    split
    case isTrue heq =>
      subst heq
      simp only [Option.some.injEq]
      exact hgot result
    case isFalse => rfl
  · intro call' result
    rw [List.mem_append, h.returned, hreturned, set_calls]
    split
    case isTrue heq =>
      subst heq
      simp [hnotReturned]
    case isFalse hne => simp [hne]
  · intro call'
    rw [List.mem_append, h.failed, hfailed, set_calls]
    split
    case isTrue heq =>
      subst heq
      simp [hnotFailed]
    case isFalse hne => simp [hne]

/-- The asker of the next message waits, and no other message is its own. -/
theorem next_asker {m : ActorMessage Msg} {rest : List (ActorMessage Msg)}
    {asker : Nat} (h : Conversation s seen) (hopen : s.isClosed = false)
    (hpending : s.runner.pendingMessages = m :: rest)
    (hrsvp : m.rsvp = some asker) :
    s.calls asker = some .waiting ∧ asker ∉ askers rest ∧
      ∀ m' result, (m', result) ∈ handledMessages seen →
        m'.rsvp ≠ some asker := by
  have hothers := h.rsvp_ne (hpending ▸ h.fifo) hrsvp
  refine ⟨?_, fun hmem => ?_, fun m' result hmem => ?_⟩
  · rw [h.waiting, hpending]
    exact ⟨hopen, mem_askers.mpr ⟨m, List.mem_cons_self, hrsvp⟩⟩
  · obtain ⟨m', hlater, hcall⟩ := mem_askers.mp hmem
    exact hothers m' (List.mem_append_right _ hlater) hcall
  · refine hothers m' (List.mem_append_left _ ?_)
    exact List.mem_map.mpr ⟨_, hmem, rfl⟩

/-- The next message is handled, and its result is sent back. -/
theorem sendsBack {m : ActorMessage Msg} {rest : List (ActorMessage Msg)}
    {result : Except ActorError Resp} (h : Conversation s seen)
    (hopen : s.isClosed = false)
    (hpending : s.runner.pendingMessages = m :: rest)
    (haccepted : acceptedMessages o = [])
    (hhandled : handledMessages o = [(m, result)])
    (hreturned : ∀ call result', .returned call result' ∉ o)
    (hfailed : ∀ call, .failed call ∉ o)
    (hstill : t.isClosed = false) (hrest : t.runner.pendingMessages = rest)
    (hcalls : ∀ call, t.calls call =
      if m.rsvp = some call then some (.answered result) else s.calls call) :
    Conversation t (seen ++ o) := by
  have hsame : acceptedMessages (seen ++ o) = acceptedMessages seen := by
    rw [acceptedMessages_append, haccepted, List.append_nil]
  have hdone : handledMessages (seen ++ o) =
      handledMessages seen ++ [(m, result)] := by
    rw [handledMessages_append, hhandled]
  constructor
  · rw [hsame, hdone, h.fifo, hpending, hrest]
    simp
  · rw [hsame]
    exact h.once
  · intro call hmem
    rw [hsame] at hmem
    rw [hcalls]
    split
    · simp
    · exact h.made call hmem
  · intro call
    rw [hcalls, hrest, and_iff_right hstill]
    split
    case isTrue hcall =>
      have hgone := (h.next_asker hopen hpending hcall).2.1
      exact iff_of_false (by simp) hgone
    case isFalse hcall =>
      rw [h.waiting, and_iff_right hopen, hpending, mem_askers, mem_askers,
        List.exists_mem_cons_iff, or_iff_right hcall]
  · intro call result'
    rw [hcalls, hdone]
    split
    case isTrue hcall =>
      have hfirst := (h.next_asker hopen hpending hcall).2.2
      constructor
      · intro hgot
        have hresult : result = result' := by simpa using hgot
        subst hresult
        exact ⟨m, by simp, hcall⟩
      · rintro ⟨m', hmem, hrsvp⟩
        rcases List.mem_append.mp hmem with hold | hnow
        · exact absurd hrsvp (hfirst m' result' hold)
        · rw [List.mem_singleton] at hnow
          cases hnow
          simp
    case isFalse hcall =>
      rw [answers_concat_iff hcall]
      exact h.got call result'
  · intro call result'
    rw [List.mem_append, or_iff_left (hreturned call result'), h.returned, hcalls]
    split
    case isTrue hcall => simp [(h.next_asker hopen hpending hcall).1]
    case isFalse => rfl
  · intro call
    rw [List.mem_append, or_iff_left (hfailed call), h.failed, hcalls]
    split
    case isTrue hcall => simp [(h.next_asker hopen hpending hcall).1]
    case isFalse => rfl

/-- `handle_message` returns, and its result is sent back. -/
theorem handles {r : Runner (ActorMessage Msg) Ev}
    {input : Input (ActorMessage Msg) Ev} {os : List (Obs (ActorMessage Msg) Ev)}
    {m : ActorMessage Msg} {actor : σ} (result : Except ActorError Resp)
    (oracle : χ) (h : Conversation s seen) (halive : s.panicked = false)
    (hstep : s.runner.step cfg input = some (r, os))
    (hfinish : s.runner.finishes input = some (.handleMessage m)) :
    Conversation ({ s.goesOn r with actor := actor }.answer m.rsvp result)
      (seen ++ .handled m result oracle :: os.map .runner) := by
  obtain ⟨hpending, hphase⟩ := Runner.pending_of_finishes hstep hfinish
  have hopen : s.isClosed = false := by
    simp [isClosed, halive, Runner.inHook_of_finishes hfinish, Phase.isEnded]
  have hsilent : Silent (os.map .runner : List (MessagingObs Msg Ev Resp χ)) :=
    silent_runner os
  have hgoesOn : s.goesOn r = { s with runner := r } := by
    simp [goesOn, hphase, Phase.isEnded]
  rw [hgoesOn]
  refine h.sendsBack hopen hpending hsilent.accepted ?_ (by simp) (by simp) ?_ ?_
    (fun call => answer_calls _ call _ _)
  · exact congrArg ((m, result) :: ·) hsilent.handled
  · rw [isClosed_answer]
    simp [isClosed, halive, hphase, Phase.isEnded]
  · rw [answer_runner]

theorem isClosed_goesOn {r : Runner (ActorMessage Msg) Ev}
    {input : Input (ActorMessage Msg) Ev} {os : List (Obs (ActorMessage Msg) Ev)}
    (halive : s.panicked = false) (hstep : s.runner.step cfg input = some (r, os))
    (hopen : r.phase.isEnded = false) : s.isClosed = false := by
  simp only [isClosed, halive, Bool.false_or]
  by_contra hended
  rw [Bool.not_eq_false, Runner.isEnded_iff] at hended
  have hlast := (Runner.step_transition hstep).ended hended
  rw [Runner.isEnded_iff.mpr hlast] at hopen
  contradiction

theorem step (h : Conversation s seen)
    (hmove : Messaging.step cfg code s i = some (t, o)) :
    Conversation t (seen ++ o) := by
  cases step_transition hmove with
  | tellRefused sender message hclosed =>
      have hsilent : Silent
          [(.refused message : MessagingObs Msg Ev Resp χ)] :=
        ⟨rfl, rfl, by simp, by simp⟩
      refine h.silent hsilent rfl (fun _ _ _ _ => Iff.rfl) (fun _ => Iff.rfl)
        (fun call => ?_) id
      rw [h.waiting, ← and_assoc, and_self_iff]
  | tells sender message r hopen harrive => exact h.tells rfl harrive
  | askRefused call sender message hcall hclosed =>
      refine h.returns (by simp [hcall]) (by simp) (by simp [hcall]) (by simp)
        (by simp [hcall]) (by simp) (by simp [hcall]) rfl rfl
  | asks call sender message r hcall hopen harrive =>
      exact h.asks hcall hopen rfl harrive
  | answered call result hcall =>
      refine h.returns (by simp [hcall]) (by simp) (by simp [hcall]) ?_
        (by simp [hcall]) (by simp) (by simp [hcall]) rfl rfl
      intro call' result'
      simp [eq_comm]
  | lost call hcall =>
      refine h.returns (by simp [hcall]) (by simp) (by simp [hcall]) (by simp)
        (by simp [hcall]) (by simp) (by simp [hcall]) rfl rfl
  | handles input oracle r os m result actor halive hstep hinput hfinish hcode =>
      exact h.handles result oracle halive hstep hfinish
  | hooks input oracle r os hook actor halive hstep hinput hfinish hhook hcode =>
      have hkept : ∀ m, s.runner.finishes input ≠ some (.handleMessage m) := by
        rw [hfinish]
        exact fun m heq => hhook m (Option.some.inj heq)
      refine h.silent (silent_hooked hook oracle os)
        (Runner.pending_of_step hstep hinput hkept)
        (fun _ _ hc hd => goesOn_calls_iff s r hc hd)
        (fun _ => goesOn_none_iff s r) (fun call => ?_) (fun hopen => ?_)
      · simp only [isClosed, goesOn, halive, Bool.false_or]
        exact goesOn_waiting_iff s r
      · refine isClosed_goesOn halive hstep ?_
        simpa [isClosed, goesOn, halive] using hopen
  | panics input oracle actor hook halive hfinish hcode =>
      have hsilent : Silent [(.panicked : MessagingObs Msg Ev Resp χ)] :=
        ⟨rfl, rfl, by simp, by simp⟩
      refine h.silent hsilent rfl (fun _ _ hc hd => map_dropped_iff hc hd)
        (fun _ => Option.map_eq_none_iff) (fun call => ?_) ?_
      · exact iff_of_false map_dropped_ne (by simp [isClosed, Messaging.panics])
      · simp [isClosed, Messaging.panics]
  | runs input oracle r os halive hstep hinput hfinish =>
      refine h.silent (silent_runner os)
        (Runner.pending_of_step hstep hinput (by simp [hfinish]))
        (fun _ _ hc hd => goesOn_calls_iff s r hc hd)
        (fun _ => goesOn_none_iff s r) (fun call => ?_) (fun hopen => ?_)
      · simp only [isClosed, goesOn, halive, Bool.false_or]
        exact goesOn_waiting_iff s r
      · refine isClosed_goesOn halive hstep ?_
        simpa [isClosed, goesOn, halive] using hopen

end Conversation

theorem conversation_of_execute {actor : σ}
    {inputs : List (MessagingInput Msg Ev χ)}
    (hrun : execute (step cfg code) (start actor) inputs = some (s, seen)) :
    s.Conversation seen :=
  execute_history (G := fun _ _ => True) (P := Conversation)
    (fun _ _ _ _ _ h _ hstep => h.step hstep) [] (Conversation.start actor)
    (stepsMeet_true _ _) hrun

/-- A closed mailbox stays closed: nothing is accepted or handled any more. -/
theorem closed_step (hmove : step cfg code s i = some (t, o))
    (hclosed : s.isClosed = true) :
    t.isClosed = true ∧ acceptedMessages o = [] ∧ handledMessages o = [] := by
  have hended : s.panicked = false → s.runner.phase = .ended := by
    intro halive
    rw [isClosed, halive, Bool.false_or] at hclosed
    exact Runner.isEnded_iff.mp hclosed
  cases step_transition hmove with
  | tellRefused | askRefused | answered | lost => exact ⟨hclosed, rfl, rfl⟩
  | tells sender message r hopen | asks call sender message r hcall hopen =>
      rw [hopen] at hclosed
      contradiction
  | handles input oracle r os m result actor halive hstep hinput hfinish hcode =>
      have hphase := Runner.inHook_of_finishes hfinish
      rw [hended halive] at hphase
      contradiction
  | hooks input oracle r os hook actor halive hstep hinput hfinish hhook hcode =>
      have hphase := Runner.inHook_of_finishes hfinish
      rw [hended halive] at hphase
      contradiction
  | panics input oracle actor hook halive hfinish hcode =>
      have hphase := Runner.inHook_of_finishes hfinish
      rw [hended halive] at hphase
      contradiction
  | runs input oracle r os halive hstep hinput hfinish =>
      have hlast := (Runner.step_transition hstep).ended (hended halive)
      refine ⟨?_, (silent_runner os).accepted, (silent_runner os).handled⟩
      simp [isClosed, goesOn, Runner.isEnded_iff.mpr hlast]

theorem closed_run {inputs : List (MessagingInput Msg Ev χ)}
    {more : List (MessagingObs Msg Ev Resp χ)} (hclosed : s.isClosed = true)
    (hrun : execute (step cfg code) s inputs = some (t, more)) :
    acceptedMessages more = [] ∧ handledMessages more = [] := by
  have hboth := execute_history (G := fun _ _ => True)
    (P := fun u seen => u.isClosed = true ∧ acceptedMessages seen = [] ∧
      handledMessages seen = [])
    (by
      rintro u seen i v o ⟨hold, hacc, hhan⟩ - hmove
      obtain ⟨hstill, hacc', hhan'⟩ := closed_step hmove hold
      refine ⟨hstill, ?_, ?_⟩
      · rw [acceptedMessages_append, hacc, hacc']
        rfl
      · rw [handledMessages_append, hhan, hhan']
        rfl)
    [] ⟨hclosed, rfl, rfl⟩ (stepsMeet_true _ _) hrun
  simpa using hboth.2

/-- **Messages are handled in the order of acceptance, each once.**  What was
accepted and not handled is in the hands of `handle_message` or in the mailbox,
and when the mailbox has been closed it is never handled. -/
theorem handled_in_order {actor : σ} {inputs : List (MessagingInput Msg Ev χ)}
    (hrun : execute (step cfg code) (start actor) inputs = some (s, seen)) :
    acceptedMessages seen =
        (handledMessages seen).map Prod.fst ++ s.runner.pendingMessages ∧
      (s.isClosed = true → ∀ later t more,
        execute (step cfg code) s later = some (t, more) →
        handledMessages (seen ++ more) = handledMessages seen) := by
  refine ⟨(conversation_of_execute hrun).fifo, ?_⟩
  intro hclosed later t more hlater
  rw [handledMessages_append, (closed_run hclosed hlater).2, List.append_nil]

/-- The call has returned, or its next step returns. -/
def Returns (cfg : RunnerConfig) (code : ActorCode σ Msg Resp χ)
    (s : Messaging σ Msg Ev Resp) (call : Nat) : Prop :=
  (∃ c result, s.calls call = some c ∧ c.result = some result) ∨
    ∃ t o, step cfg code s (.resumes call) = some (t, o) ∧
      ∃ c result, t.calls call = some c ∧ c.result = some result

theorem returns_of_not_waiting {call : Nat} (hmade : s.calls call ≠ none)
    (hwaits : s.calls call ≠ some .waiting) : Returns cfg code s call := by
  cases hcall : s.calls call with
  | none => exact absurd hcall hmade
  | some c =>
      cases c with
      | waiting => exact absurd hcall hwaits
      | answered result =>
          refine Or.inr ⟨s.set call (.returned result), [.returned call result],
            ?_, .returned result, result, ?_, rfl⟩
          · simp [step, hcall]
          · simp [set_calls]
      | dropped =>
          refine Or.inr ⟨s.set call .failed, [.failed call], ?_, .failed,
            .error channelClosed, ?_, rfl⟩
          · simp [step, hcall]
          · simp [set_calls]
      | returned result => exact Or.inl ⟨_, result, hcall, rfl⟩
      | failed => exact Or.inl ⟨_, .error channelClosed, hcall, rfl⟩

/-- **Every request gets the result of its own message.**  A call of `ask` that
returns a result returns the one that `handle_message` gave for its message,
which is handled just once; a call that fails has a message that is never
handled to its end; and a call waits only for a message that is pending before
a runner that has not gone, so that it returns once the runner has. -/
theorem ask_answers {actor : σ} {inputs : List (MessagingInput Msg Ev χ)}
    (hrun : execute (step cfg code) (start actor) inputs = some (s, seen))
    (call : Nat) :
    (∀ result, .returned call result ∈ seen →
      (askers ((handledMessages seen).map Prod.fst)).count call = 1 ∧
      ∀ m result', (m, result') ∈ handledMessages seen → m.rsvp = some call →
        result' = result) ∧
    (.failed call ∈ seen →
      call ∉ askers ((handledMessages seen).map Prod.fst)) ∧
    (s.calls call = some .waiting →
      s.isClosed = false ∧ call ∈ askers s.runner.pendingMessages) ∧
    (s.calls call ≠ none → s.isClosed = true → Returns cfg code s call) := by
  have h := conversation_of_execute hrun
  refine ⟨fun result hreturned => ?_, fun hfailed hmem => ?_,
    fun hwaits => (h.waiting call).mp hwaits, fun hmade hclosed => ?_⟩
  · have hcall := (h.returned call result).mp hreturned
    obtain ⟨m, hm, hrsvp⟩ := (h.got call result).mp (Or.inr hcall)
    have hnodup := h.once
    rw [h.askers_eq] at hnodup
    refine ⟨?_, fun m' result' hm' hrsvp' => ?_⟩
    · refine List.count_eq_one_of_mem (List.nodup_append'.mp hnodup).1 ?_
      exact mem_askers.mpr ⟨m, List.mem_map.mpr ⟨_, hm, rfl⟩, hrsvp⟩
    · have hother := (h.got call result').mpr ⟨m', hm', hrsvp'⟩
      rw [hcall] at hother
      simpa [eq_comm] using hother
  · have hcall := (h.failed call).mp hfailed
    obtain ⟨m, hm, hrsvp⟩ := mem_askers.mp hmem
    obtain ⟨⟨m', result⟩, hhandled, rfl⟩ := List.mem_map.mp hm
    have hgot := (h.got call result).mpr ⟨m', hhandled, hrsvp⟩
    rw [hcall] at hgot
    simp at hgot
  · refine returns_of_not_waiting hmade fun hwaits => ?_
    have hopen := ((h.waiting call).mp hwaits).1
    rw [hclosed] at hopen
    contradiction

/-- An actor that adds the messages up and answers with the sum. -/
def adding : ActorCode Nat Nat Nat Unit where
  handleMessage sum _ n _ := (some (.ok (sum + n)), sum + n)
  hook sum _ _ := (some (), sum)

/-- The path of the callers. -/
def callerPath : ActorPath := ⟨[['u', 's', 'e', 'r'], ['a']]⟩

/-- The actor starts, two callers ask, and the message of the first one is
handled. -/
def twoAsks : List (MessagingInput Nat Unit Unit) :=
  [.runs (.choice .proceed) (), .runs (.choice (.returns (.ok ()))) (),
    .runs (.choice .proceed) (), .asks 0 callerPath 2, .asks 1 callerPath 3,
    .runs (.choice .takeMessage) (), .runs (.choice (.returns (.ok ()))) ()]

/-- The actor is stopped and ends with the second message in its mailbox. -/
def stopsAfterFirst : List (MessagingInput Nat Unit Unit) :=
  [.runs (.arrival (.stop ⟨.outside, none⟩)) (), .runs (.choice .takeStop) (),
    .runs (.choice (.returns (.ok ()))) (), .runs (.choice .proceed) (),
    .runs (.choice .proceed) (), .runs (.choice .proceed) (),
    .runs (.choice .proceed) (), .runs (.choice .proceed) (),
    .runs (.choice (.returns (.ok ()))) (), .runs (.choice .proceed) (),
    .runs (.choice .proceed) ()]

/-- A root actor without restarts. -/
def plainActor : RunnerConfig := ⟨false, .stop⟩

theorem twoAsks_handled_in_order :
    ∃ s seen, execute (step plainActor adding) (start 0)
        (twoAsks ++ stopsAfterFirst) = some (s, seen) ∧
      acceptedMessages seen = [⟨2, callerPath, some 0⟩, ⟨3, callerPath, some 1⟩] ∧
      acceptedMessages seen =
        (handledMessages seen).map Prod.fst ++ s.runner.pendingMessages := by
  obtain ⟨⟨s, seen⟩, hrun⟩ := Option.isSome_iff_exists.mp
    (show (execute (step plainActor adding) (start 0)
      (twoAsks ++ stopsAfterFirst)).isSome from rfl)
  have horder := (handled_in_order hrun).1
  refine ⟨s, seen, hrun, ?_, horder⟩
  cases hrun
  rfl

/-- The first caller gets its sum, the second one an error, and its message is
not handled. -/
theorem twoAsks_answers :
    ∃ s seen, execute (step plainActor adding) (start 0)
        (twoAsks ++ stopsAfterFirst ++ [.resumes 0, .resumes 1]) =
          some (s, seen) ∧
      s.calls 0 = some (.returned (.ok 2)) ∧
      (askers ((handledMessages seen).map Prod.fst)).count 0 = 1 ∧
      s.calls 1 = some .failed ∧
      1 ∉ askers ((handledMessages seen).map Prod.fst) := by
  obtain ⟨⟨s, seen⟩, hrun⟩ := Option.isSome_iff_exists.mp
    (show (execute (step plainActor adding) (start 0)
      (twoAsks ++ stopsAfterFirst ++ [.resumes 0, .resumes 1])).isSome from rfl)
  have h := conversation_of_execute hrun
  have hend : s.calls 0 = some (.returned (.ok 2)) ∧ s.calls 1 = some .failed := by
    cases hrun
    exact ⟨rfl, rfl⟩
  have hreturned := (h.returned 0 (.ok 2)).mpr hend.1
  have hfailed := (h.failed 1).mpr hend.2
  exact ⟨s, seen, hrun, hend.1, ((ask_answers hrun 0).1 (.ok 2) hreturned).1,
    hend.2, (ask_answers hrun 1).2.1 hfailed⟩

end Messaging

end Actor
end Rush
