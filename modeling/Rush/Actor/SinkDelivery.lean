import Rush.Actor.Sink

/-!
# What sinks are notified of

A sink is notified of events that were published and broadcast after it has
subscribed, in the order of their publication and of each at most once.  It
misses events just when one is broadcast while it is as far behind as the channel
is large.  It ends after the runner, with everything that was left for it.
-/

namespace Rush
namespace Actor

open Foundation

variable {M Ev : Type}

section Runner

variable {cfg : RunnerConfig} {r r' : Runner M Ev} {o : List (Obs M Ev)}
  {i : Input M Ev}

/-- A step broadcasts an event that it takes from the inner queue, or none. -/
theorem broadcast_of_transition (h : Runner.Transition cfg r r' o) :
    (∃ event, broadcastEvents o = [event] ∧
        r.innerQueue = .event event :: r'.innerQueue) ∨
      broadcastEvents o = [] := by
  cases h with
  | takesEvent event rest hphase hsignal hqueue => exact Or.inl ⟨event, rfl, hqueue⟩
  | entersRun | ends | takesError =>
      right
      split <;> rfl
  | restarts strategy =>
      right
      cases strategy.nextBackoff.1 <;> rfl
  | _ => exact Or.inr rfl

/-- The events that a step accepts are the published ones. -/
theorem accepted_of_step (h : Runner.step cfg r i = some (r', o)) :
    (acceptedActions (r.innerSteps i)).filterMap InnerAction.event? =
      i.published := by
  cases i with
  | arrival arrival => rfl
  | choice choice =>
      cases choice with
      | operation op =>
          change r.advance cfg (.operation op) = some (r', o) at h
          cases hphase : r.phase with
          | inHook hook =>
              simp only [Runner.innerSteps, hphase]
              cases op <;> rfl
          | _ => simp [Runner.advance, Runner.select, hphase] at h
      | _ =>
          -- nothing but a failed `pre_stop` is accepted
          simp only [Runner.innerSteps, Input.published]
          split <;> first | rfl | (cases r.innerQueue.head? <;> rfl) | contradiction

/-- What is published is broadcast in order. -/
theorem events_of_step (h : Runner.step cfg r i = some (r', o)) :
    r.queuedEvents ++ i.published = broadcastEvents o ++ r'.queuedEvents := by
  have hpublished := accepted_of_step h
  have hbroadcast := broadcast_of_transition (Runner.step_transition h)
  have heffect := Runner.step_innerEffect h
  generalize hsteps : r.innerSteps i = xs at heffect hpublished
  unfold Runner.queuedEvents
  rw [← hpublished]
  cases heffect with
  | accepts actions _ hqueue =>
      have hnone : broadcastEvents o = [] := by
        refine hbroadcast.resolve_left ?_
        rintro ⟨event, -, hshorter⟩
        have hlength := congrArg List.length hqueue
        rw [hshorter, List.length_append, List.length_cons] at hlength
        omega
      have haccepted : acceptedActions (actions.map InnerStep.accepted) = actions :=
        acceptedActions_accepted [] actions
      rw [haccepted, hnone, hqueue, List.filterMap_append, List.nil_append]
  | dispatches action _ hqueue =>
      have hhandled := Runner.obs_of_dispatched h (hsteps ▸ List.mem_singleton_self _)
      have haccepted : acceptedActions [InnerStep.dispatched action] = [] := rfl
      rw [hhandled, hqueue, haccepted, List.filterMap_nil, List.append_nil]
      cases action with
      | event event => rfl
      | error e | fail e =>
          simp only [Runner.innerHandle]
          split <;> rfl
  | stops _ hqueue =>
      have hnone : broadcastEvents o = [] := by
        refine hbroadcast.resolve_left ?_
        rintro ⟨event, -, hshorter⟩
        have hlength := congrArg List.length hshorter
        rw [hqueue, List.length_cons] at hlength
        omega
      rw [hnone, hqueue]
      exact List.append_nil _

end Runner

namespace EventBus

variable {cfg : RunnerConfig} {capacity : Nat} {s t : EventBus M Ev}
  {i : BusInput M Ev} {o seen : List (BusObs Ev)} {id : Nat}

section Lists

variable (seen o id)

@[simp] theorem publishedEvents_append :
    publishedEvents (seen ++ o) = publishedEvents seen ++ publishedEvents o :=
  List.filterMap_append

@[simp] theorem sentEvents_append :
    sentEvents (seen ++ o) = sentEvents seen ++ sentEvents o :=
  List.filterMap_append

@[simp] theorem notifiedEvents_append :
    notifiedEvents id (seen ++ o) = notifiedEvents id seen ++ notifiedEvents id o :=
  List.filterMap_append

variable (published sent : List Ev)

theorem publishedEvents_ran :
    publishedEvents (published.map .published ++ sent.map .sent) = published := by
  simp [publishedEvents, List.filterMap_map]

theorem sentEvents_ran :
    sentEvents (published.map .published ++ sent.map .sent) = sent := by
  simp [sentEvents, List.filterMap_map]

theorem notifiedEvents_ran :
    notifiedEvents id (published.map .published ++ sent.map .sent) = [] := by
  simp [notifiedEvents, List.filterMap_map]

theorem sent_foldl (channel : Broadcast Ev) :
    (sent.foldl Broadcast.send channel).sent = channel.sent ++ sent := by
  induction sent generalizing channel with
  | nil => exact (List.append_nil _).symm
  | cons event events ih =>
      rw [List.foldl_cons, ih, Broadcast.send, List.append_assoc]
      rfl

end Lists

theorem set_sinks (sink : Sink Ev) (other : Nat) :
    (s.set id sink).sinks other = if other = id then some sink else s.sinks other := by
  simp [set, Function.update_apply]

/-- Broadcasting is taking published events off the inner queue. -/
structure Broadcasts (s : EventBus M Ev) (seen : List (BusObs Ev)) : Prop where
  channel : s.channel.sent = sentEvents seen
  queue : publishedEvents seen = sentEvents seen ++ s.runner.queuedEvents

theorem Broadcasts.step (h : s.Broadcasts seen)
    (hmove : EventBus.step cfg capacity s i = some (t, o)) :
    t.Broadcasts (seen ++ o) := by
  -- a step of a sink changes neither the channel nor the queue
  have hsilent : t.channel.sent = s.channel.sent → t.runner = s.runner →
      sentEvents o = [] → publishedEvents o = [] → t.Broadcasts (seen ++ o) := by
    intro hchannel hrunner hsent hpublished
    constructor
    · rw [hchannel, h.channel, sentEvents_append, hsent, List.append_nil]
    · rw [publishedEvents_append, hpublished, sentEvents_append, hsent, hrunner,
        List.append_nil, List.append_nil, h.queue]
  cases step_transition hmove with
  | runs input r o' hopen hstep =>
      constructor
      · show ((broadcastEvents o').foldl Broadcast.send s.channel).sent = _
        rw [sent_foldl, sentEvents_append, sentEvents_ran, h.channel]
      · rw [publishedEvents_append, publishedEvents_ran, sentEvents_append,
          sentEvents_ran, h.queue, List.append_assoc, events_of_step hstep,
          List.append_assoc]
  | panics | subscribes | notifies | lags | finishes | notified | notifyPanics =>
      exact hsilent rfl rfl rfl rfl

theorem broadcasts_of_execute {inputs : List (BusInput M Ev)}
    (hrun : execute (step cfg capacity) start inputs = some (s, seen)) :
    s.Broadcasts seen :=
  execute_history (G := fun _ _ => True) (P := Broadcasts)
    (fun _ _ _ _ _ h _ hstep => h.step hstep) [] ⟨rfl, rfl⟩ (stepsMeet_true _ _) hrun

/-! ### One sink -/

/-- What a step does to a sink and to the channel. -/
inductive SinkStep (capacity : Nat) (s : EventBus M Ev) (id : Nat) :
    BusInput M Ev → EventBus M Ev → List (BusObs Ev) → Prop
  /-- A step of the runner. -/
  | sends (input t' o') (hopen : s.channel.closed = false)
      (hsent : t'.channel.sent = s.channel.sent ++ sentEvents o')
      (hsink : t'.sinks id = s.sinks id) (hone : (sentEvents o').length ≤ 1)
      (hnone : notifiedEvents id o' = []) :
      SinkStep capacity s id (.runs input) t' o'
  /-- A step of another sink, or a panic of the actor. -/
  | other (input t' o') (hother : input ≠ .receives id ∧ input ≠ .notified id)
      (hsent : t'.channel.sent = s.channel.sent)
      (hclosed : s.channel.closed = true → t'.channel.closed = true)
      (hsink : t'.sinks id = s.sinks id) (hquiet : sentEvents o' = [])
      (hnone : notifiedEvents id o' = []) : SinkStep capacity s id input t' o'
  | subscribes (hnew : s.sinks id = none) :
      SinkStep capacity s id (.subscribes id)
        (s.set id ⟨s.channel.sent.length, .receiving⟩) [.subscribed id]
  | notifies (cursor event) (hsink : s.sinks id = some ⟨cursor, .receiving⟩)
      (hretained : s.channel.oldest capacity ≤ cursor)
      (hsent : s.channel.sent[cursor]? = some event) :
      SinkStep capacity s id (.receives id)
        (s.set id ⟨cursor + 1, .notifying event⟩) [.notifies id event]
  | lags (cursor) (hsink : s.sinks id = some ⟨cursor, .receiving⟩)
      (hlost : cursor < s.channel.oldest capacity) :
      SinkStep capacity s id (.receives id)
        (s.set id ⟨s.channel.oldest capacity, .receiving⟩) []
  | finishes (cursor) (hsink : s.sinks id = some ⟨cursor, .receiving⟩)
      (hend : s.channel.sent.length ≤ cursor) (hclosed : s.channel.closed = true) :
      SinkStep capacity s id (.receives id) (s.set id ⟨cursor, .finished⟩)
        [.finished id]
  | notified (cursor event)
      (hsink : s.sinks id = some ⟨cursor, .notifying event⟩) :
      SinkStep capacity s id (.notified id) (s.set id ⟨cursor, .receiving⟩) []
  | notifyPanics (cursor event)
      (hsink : s.sinks id = some ⟨cursor, .notifying event⟩) :
      SinkStep capacity s id (.notifyPanics id) (s.set id ⟨cursor, .panicked⟩) []

theorem sinkStep_of_step (id : Nat) (hmove : step cfg capacity s i = some (t, o)) :
    SinkStep capacity s id i t o := by
  -- the sinks have their own receivers
  have hother : ∀ (other : Nat) (sink : Sink Ev), other ≠ id →
      (s.set other sink).sinks id = s.sinks id := by
    intro other sink hne
    rw [set_sinks, if_neg fun heq => hne heq.symm]
  cases step_transition hmove with
  | runs input r o' hopen hstep =>
      refine .sends input _ _ hopen ?_ rfl ?_ (notifiedEvents_ran _ _ _)
      · show ((broadcastEvents o').foldl Broadcast.send s.channel).sent = _
        rw [sent_foldl, sentEvents_ran]
      · rw [sentEvents_ran]
        rcases broadcast_of_transition (Runner.step_transition hstep) with
          ⟨event, hone, -⟩ | hnone
        · rw [hone]
          exact Nat.le_refl 1
        · rw [hnone]
          exact Nat.zero_le 1
  | panics hopen =>
      exact .other _ _ _ ⟨by simp, by simp⟩ rfl (fun _ => rfl) rfl rfl rfl
  | subscribes other hnew =>
      by_cases heq : other = id
      · subst heq
        exact .subscribes hnew
      · exact .other _ _ _ ⟨by simp, by simp⟩ rfl (fun h => h) (hother _ _ heq) rfl rfl
  | notifies other cursor event hsink hretained hsent =>
      by_cases heq : other = id
      · subst heq
        exact .notifies cursor event hsink hretained hsent
      · refine .other _ _ _ ⟨by simpa using heq, by simp⟩ rfl (fun h => h)
          (hother _ _ heq) rfl ?_
        simp [notifiedEvents, heq]
  | lags other cursor hsink hlost =>
      by_cases heq : other = id
      · subst heq
        exact .lags cursor hsink hlost
      · exact .other _ _ _ ⟨by simpa using heq, by simp⟩ rfl (fun h => h)
          (hother _ _ heq) rfl rfl
  | finishes other cursor hsink hend hclosed =>
      by_cases heq : other = id
      · subst heq
        exact .finishes cursor hsink hend hclosed
      · exact .other _ _ _ ⟨by simpa using heq, by simp⟩ rfl (fun h => h)
          (hother _ _ heq) rfl rfl
  | notified other cursor event hsink =>
      by_cases heq : other = id
      · subst heq
        exact .notified cursor event hsink
      · exact .other _ _ _ ⟨by simp, by simpa using heq⟩ rfl (fun h => h)
          (hother _ _ heq) rfl rfl
  | notifyPanics other cursor event hsink =>
      by_cases heq : other = id
      · subst heq
        exact .notifyPanics cursor event hsink
      · exact .other _ _ _ ⟨by simp, by simp⟩ rfl (fun h => h) (hother _ _ heq) rfl rfl

/-- A sink that has subscribed when `base` was sent has gone through what was sent
since, up to its cursor. -/
structure Follows (base : List Ev) (id : Nat) (s : EventBus M Ev)
    (seen : List (BusObs Ev)) (sink : Sink Ev) : Prop where
  isSink : s.sinks id = some sink
  sent : s.channel.sent = base ++ sentEvents seen
  after : base.length ≤ sink.cursor
  within : sink.cursor ≤ s.channel.sent.length
  notified : List.Sublist (notifiedEvents id seen)
    ((sentEvents seen).take (sink.cursor - base.length))

/-- What the sink will be notified of. -/
def upcoming (capacity : Nat) (s : EventBus M Ev) (id : Nat) : List Ev :=
  match s.sinks id with
  | some ⟨_, .panicked⟩ => []
  | some ⟨cursor, _⟩ => s.channel.upcoming capacity cursor
  | none => []

namespace Follows

variable {base : List Ev} {sink : Sink Ev}

theorem subscribed (s : EventBus M Ev) (id : Nat) :
    Follows s.channel.sent id (s.set id ⟨s.channel.sent.length, .receiving⟩) []
      ⟨s.channel.sent.length, .receiving⟩ where
  isSink := by rw [set_sinks, if_pos rfl]
  sent := (List.append_nil _).symm
  after := Nat.le_refl _
  within := Nat.le_refl _
  notified := List.nil_sublist _

/-- A step after which the cursor is where it was. -/
theorem stays (h : Follows base id s seen sink)
    (hsent : t.channel.sent = s.channel.sent ++ sentEvents o) {sink' : Sink Ev}
    (hsink : t.sinks id = some sink') (hcursor : sink'.cursor = sink.cursor)
    (hnone : notifiedEvents id o = []) : Follows base id t (seen ++ o) sink' where
  isSink := hsink
  sent := by rw [hsent, h.sent, sentEvents_append, List.append_assoc]
  after := by
    rw [hcursor]
    exact h.after
  within := by
    rw [hsent, hcursor, List.length_append]
    exact Nat.le_add_right_of_le h.within
  notified := by
    rw [notifiedEvents_append, hnone, List.append_nil, sentEvents_append, hcursor]
    exact h.notified.trans ((List.prefix_append _ _).take _).sublist

theorem step (h : Follows base id s seen sink)
    (hstep : SinkStep capacity s id i t o) :
    ∃ sink', Follows base id t (seen ++ o) sink' := by
  have hset : ∀ sink' : Sink Ev, (s.set id sink').sinks id = some sink' := by
    intro sink'
    rw [set_sinks, if_pos rfl]
  cases hstep with
  | sends input _ _ _ hsent hsink _ hnone =>
      exact ⟨sink, h.stays hsent (hsink.trans h.isSink) rfl hnone⟩
  | other _ _ _ _ hsent _ hsink hquiet hnone =>
      refine ⟨sink, h.stays ?_ (hsink.trans h.isSink) rfl hnone⟩
      rw [hquiet, List.append_nil, hsent]
  | subscribes hnew => exact absurd (hnew.symm.trans h.isSink) (by simp)
  | notifies cursor event hsink hretained hsent =>
      cases h.isSink.symm.trans hsink
      obtain ⟨hlt, hget⟩ := List.getElem?_eq_some_iff.mp hsent
      refine ⟨_, ⟨hset _, ?_, Nat.le_succ_of_le h.after, hlt, ?_⟩⟩
      · exact h.sent.trans (by simp [sentEvents])
      -- the event is the next one that was sent since the subscription
      · have hone : notifiedEvents id [BusObs.notifies id event] = [event] := by
          simp [notifiedEvents]
        have hevent : (sentEvents seen)[cursor - base.length]? = some event := by
          rw [h.sent, List.getElem?_append_right h.after] at hsent
          exact hsent
        have htake : (sentEvents seen).take (cursor + 1 - base.length) =
            (sentEvents seen).take (cursor - base.length) ++ [event] := by
          rw [Nat.sub_add_comm h.after, List.take_add_one, hevent]
          rfl
        have hsame : sentEvents (seen ++ [BusObs.notifies id event]) =
            sentEvents seen := by simp [sentEvents]
        rw [notifiedEvents_append, hone, hsame, htake]
        exact h.notified.append_right [event]
  | lags cursor hsink hlost =>
      cases h.isSink.symm.trans hsink
      refine ⟨_, ⟨hset _, ?_, h.after.trans hlost.le, Nat.sub_le _ _, ?_⟩⟩
      · rw [List.append_nil]
        exact h.sent
      · rw [List.append_nil]
        exact h.notified.trans
          (List.take_sublist_take_left (Nat.sub_le_sub_right hlost.le _))
  | finishes cursor hsink _ _ =>
      cases h.isSink.symm.trans hsink
      exact ⟨_, h.stays (List.append_nil _).symm (hset _) rfl rfl⟩
  | notified cursor event hsink | notifyPanics cursor event hsink =>
      cases h.isSink.symm.trans hsink
      exact ⟨_, h.stays (List.append_nil _).symm (hset _) rfl rfl⟩

end Follows

theorem follows_of_execute {inputs : List (BusInput M Ev)}
    (hrun : execute (step cfg capacity)
        (s.set id ⟨s.channel.sent.length, .receiving⟩) inputs = some (t, seen)) :
    ∃ sink, Follows s.channel.sent id t seen sink := by
  have h := execute_history (G := fun _ _ => True)
    (P := fun t seen => ∃ sink, Follows s.channel.sent id t seen sink)
    (by
      rintro s seen i t o ⟨sink, h⟩ - hstep
      exact h.step (sinkStep_of_step id hstep))
    [] ⟨_, Follows.subscribed s id⟩ (stepsMeet_true _ _) hrun
  exact h

/-- The first step of a run is the subscription. -/
theorem subscribes_run {inputs : List (BusInput M Ev)}
    (hrun : execute (step cfg capacity) s (.subscribes id :: inputs) =
      some (t, seen)) :
    s.sinks id = none ∧
      step cfg capacity s (.subscribes id) =
        some (s.set id ⟨s.channel.sent.length, .receiving⟩, [.subscribed id]) ∧
      ∃ seen', seen = .subscribed id :: seen' ∧
        execute (step cfg capacity) (s.set id ⟨s.channel.sent.length, .receiving⟩)
          inputs = some (t, seen') := by
  obtain ⟨u, o, seen', hfirst, hrest, rfl⟩ := execute_cons_eq_some.mp hrun
  cases step_transition hfirst with
  | subscribes _ hnew => exact ⟨hnew, hfirst, seen', rfl, hrest⟩

/-- **A sink is notified in order.**  In every run, a sink is notified of events
that were broadcast since its subscription, in their order and of each at most
once; and what is broadcast is what was published, in order, up to the events that
are still in the inner queue. -/
theorem sink_notified_in_order {before after : List (BusInput M Ev)}
    {earlier : List (BusObs Ev)}
    (hbefore : execute (step cfg capacity) start before = some (s, earlier))
    (hafter : execute (step cfg capacity) s (.subscribes id :: after) =
      some (t, seen)) :
    List.Sublist (notifiedEvents id seen) (sentEvents seen) ∧
      publishedEvents (earlier ++ seen) =
        sentEvents (earlier ++ seen) ++ t.runner.queuedEvents := by
  constructor
  · obtain ⟨-, -, seen', rfl, hrest⟩ := subscribes_run hafter
    obtain ⟨sink, h⟩ := follows_of_execute hrest
    exact h.notified.trans (List.take_sublist _ _)
  · exact (broadcasts_of_execute
      (execute_append.mpr ⟨s, earlier, seen, hbefore, hafter, rfl⟩)).queue

/-! ### Events that are lost to a sink -/

/-- The runner broadcasts an event in this step. -/
def Sends (cfg : RunnerConfig) (s : EventBus M Ev) : BusInput M Ev → Prop
  | .runs input => ∃ r o, s.runner.step cfg input = some (r, o) ∧
      broadcastEvents o ≠ []
  | _ => False

/-- When an event is broadcast, the sink is less than the capacity behind. -/
def KeepsUp (cfg : RunnerConfig) (capacity : Nat) (id : Nat) (s : EventBus M Ev)
    (i : BusInput M Ev) : Prop :=
  s.Sends cfg i → ∀ sink, s.sinks id = some sink →
    s.channel.sent.length < sink.cursor + capacity

theorem sends_iff (hmove : step cfg capacity s i = some (t, o)) :
    s.Sends cfg i ↔ sentEvents o ≠ [] := by
  cases step_transition hmove with
  | runs input r o' hopen hstep =>
      rw [sentEvents_ran]
      constructor
      · rintro ⟨r', o'', hstep', hsends⟩
        cases hstep.symm.trans hstep'
        exact hsends
      · exact fun hsends => ⟨r, o', hstep, hsends⟩
  | panics | subscribes | notifies | lags | finishes | notified | notifyPanics =>
      simp [Sends, sentEvents]

theorem upcoming_congr {b b' : Broadcast Ev} (hsent : b'.sent = b.sent)
    (cursor : Nat) : b'.upcoming capacity cursor = b.upcoming capacity cursor := by
  unfold Broadcast.upcoming Broadcast.oldest
  rw [hsent]

/-- When nothing is broadcast, the sink is notified of what was coming up. -/
theorem upcoming_of_quiet {sink : Sink Ev} (hsink : s.sinks id = some sink)
    (hstep : SinkStep capacity s id i t o) (hquiet : sentEvents o = []) :
    ∃ sink', t.sinks id = some sink' ∧
      notifiedEvents id o ++ t.channel.upcoming capacity sink'.cursor =
        s.channel.upcoming capacity sink.cursor := by
  have hset : ∀ sink : Sink Ev, (s.set id sink).sinks id = some sink := by
    intro sink
    rw [set_sinks, if_pos rfl]
  cases hstep with
  | sends input _ _ _ hsent hsame _ hnone =>
      refine ⟨sink, hsame.trans hsink, ?_⟩
      rw [hquiet, List.append_nil] at hsent
      rw [hnone, List.nil_append, upcoming_congr hsent]
  | other _ _ _ _ hsent _ hsame _ hnone =>
      refine ⟨sink, hsame.trans hsink, ?_⟩
      rw [hnone, List.nil_append, upcoming_congr hsent]
  | subscribes hnew => exact absurd (hnew.symm.trans hsink) (by simp)
  | notifies cursor event hsink' hretained hsent =>
      cases hsink.symm.trans hsink'
      refine ⟨_, hset _, ?_⟩
      have hone : notifiedEvents id [BusObs.notifies id event] = [event] := by
        simp [notifiedEvents]
      rw [hone, Broadcast.upcoming_value hretained hsent]
      rfl
  | lags cursor hsink' hlost =>
      cases hsink.symm.trans hsink'
      exact ⟨_, hset _, Broadcast.upcoming_lagged hlost.le⟩
  | finishes cursor hsink' | notified cursor _ hsink' | notifyPanics cursor _ hsink' =>
      cases hsink.symm.trans hsink'
      exact ⟨_, hset _, rfl⟩

/-- Events that were broadcast since the subscription are lost to the sink. -/
def Loses (capacity : Nat) (id : Nat) (s : EventBus M Ev) (seen : List (BusObs Ev)) :
    Prop :=
  ∃ sink, s.sinks id = some sink ∧
    (notifiedEvents id seen).length +
        (s.channel.upcoming capacity sink.cursor).length <
      (sentEvents seen).length

namespace Follows

variable {base : List Ev} {sink sink' : Sink Ev}

theorem loses_iff (h : Follows base id s seen sink) :
    s.Loses capacity id seen ↔
      (notifiedEvents id seen).length +
          (s.channel.upcoming capacity sink.cursor).length <
        (sentEvents seen).length := by
  constructor
  · rintro ⟨sink', hsink', hlost⟩
    cases h.isSink.symm.trans hsink'
    exact hlost
  · exact fun hlost => ⟨sink, h.isSink, hlost⟩

theorem length_sent (h : Follows base id s seen sink) :
    s.channel.sent.length = base.length + (sentEvents seen).length := by
  rw [h.sent, List.length_append]

theorem length_notified_le (h : Follows base id s seen sink) :
    (notifiedEvents id seen).length ≤ sink.cursor - base.length := by
  refine h.notified.length_le.trans ?_
  rw [List.length_take]
  exact Nat.min_le_left _ _

/-- What is lost stays lost, and is lost when the sink does not keep up. -/
theorem loses_step (hcapacity : 0 < capacity) (h : Follows base id s seen sink)
    (hstep : SinkStep capacity s id i t o) :
    t.Loses capacity id (seen ++ o) ↔ s.Loses capacity id seen ∨
      ¬ (sentEvents o ≠ [] → s.channel.sent.length < sink.cursor + capacity) := by
  by_cases hquiet : sentEvents o = []
  · obtain ⟨sink', hsink', hupcoming⟩ := upcoming_of_quiet h.isSink hstep hquiet
    obtain ⟨sink'', h'⟩ := h.step hstep
    cases hsink'.symm.trans h'.isSink
    have hlength := congrArg List.length hupcoming
    rw [List.length_append] at hlength
    rw [h.loses_iff, h'.loses_iff, notifiedEvents_append, sentEvents_append, hquiet,
      List.append_nil, List.length_append, ← hlength, Nat.add_assoc]
    simp
  · cases hstep with
    | sends input _ _ hopen hsent hsink hone hnone =>
        have h' := h.stays hsent (hsink.trans h.isSink) rfl hnone
        have hwithin := h.within
        have hafter := h.after
        have hlength := h.length_sent
        have hle := h.length_notified_le
        rw [h.loses_iff, h'.loses_iff, notifiedEvents_append, hnone, List.append_nil,
          sentEvents_append, List.length_append, Broadcast.length_upcoming,
          Broadcast.length_upcoming]
        unfold Broadcast.oldest
        rw [hsent, List.length_append]
        have hpos : 0 < (sentEvents o).length := List.length_pos_iff.mpr hquiet
        constructor
        · intro hlost
          by_contra hkept
          obtain ⟨hkept, hbehind⟩ := not_or.mp hkept
          have hnear := not_not.mp hbehind hquiet
          omega
        · rintro (hlost | hbehind)
          · omega
          · have hfar : ¬ s.channel.sent.length < sink.cursor + capacity :=
              fun hnear => hbehind fun _ => hnear
            omega
    | other _ _ _ _ _ _ _ hnothing => exact absurd hnothing hquiet
    | _ => exact absurd rfl hquiet

/-- A sink that has lost nothing has been notified of what is not coming up. -/
theorem not_loses_iff (h : Follows base id s seen sink) :
    ¬ s.Loses capacity id seen ↔
      notifiedEvents id seen ++ s.channel.upcoming capacity sink.cursor =
        sentEvents seen := by
  have hwithin := h.within
  have hafter := h.after
  have hlength := h.length_sent
  have hle := h.length_notified_le
  rw [h.loses_iff]
  constructor
  · intro hkept
    rw [Broadcast.length_upcoming] at hkept
    have hoverall : s.channel.oldest capacity ≤ s.channel.sent.length := Nat.sub_le _ _
    have hall : (notifiedEvents id seen).length = sink.cursor - base.length := by omega
    have hretained : s.channel.oldest capacity ≤ sink.cursor := by omega
    have htake : notifiedEvents id seen =
        (sentEvents seen).take (sink.cursor - base.length) := by
      refine h.notified.eq_of_length_le ?_
      rw [hall, List.length_take]
      exact Nat.min_le_left _ _
    have hdrop : s.channel.upcoming capacity sink.cursor =
        (sentEvents seen).drop (sink.cursor - base.length) := by
      rw [Broadcast.upcoming, Nat.max_eq_left hretained, h.sent,
        List.drop_append, List.drop_eq_nil_of_le hafter, List.nil_append]
    rw [htake, hdrop, List.take_append_drop]
  · intro heq hlost
    have hsum := congrArg List.length heq
    rw [List.length_append] at hsum
    omega

end Follows

theorem not_loses_of_execute (hcapacity : 0 < capacity)
    {inputs : List (BusInput M Ev)}
    (hrun : execute (step cfg capacity)
        (s.set id ⟨s.channel.sent.length, .receiving⟩) inputs = some (t, seen)) :
    ¬ t.Loses capacity id seen ↔
      StepsMeet (step cfg capacity) (KeepsUp cfg capacity id)
        (s.set id ⟨s.channel.sent.length, .receiving⟩) inputs := by
  refine execute_history_avoids_iff
    (I := fun t seen => ∃ sink, Follows s.channel.sent id t seen sink)
    (D := Loses capacity id) ?_ [] ⟨_, Follows.subscribed s id⟩ ?_ hrun
  · rintro s' seen i t o ⟨sink, h⟩ hmove
    have hstep := sinkStep_of_step id hmove
    refine ⟨h.step hstep, ?_⟩
    have hguard : KeepsUp cfg capacity id s' i ↔
        (sentEvents o ≠ [] → s'.channel.sent.length < sink.cursor + capacity) := by
      unfold KeepsUp
      rw [sends_iff hmove]
      constructor
      · exact fun hkeeps hsends => hkeeps hsends sink h.isSink
      · intro hkeeps hsends sink' hsink'
        cases h.isSink.symm.trans hsink'
        exact hkeeps hsends
    rw [h.loses_step hcapacity hstep, hguard]
  · rw [(Follows.subscribed s id).loses_iff]
    exact Nat.not_lt_zero _

/-- No sink gets to `panicked` without a panic of its subscriber. -/
theorem not_panicked_of_execute {inputs : List (BusInput M Ev)}
    (hcode : .notifyPanics id ∉ inputs)
    (hstart : ∀ cursor, s.sinks id ≠ some ⟨cursor, .panicked⟩)
    (hrun : execute (step cfg capacity) s inputs = some (t, seen)) :
    ∀ cursor, t.sinks id ≠ some ⟨cursor, .panicked⟩ := by
  refine execute_invariant_of_guard (G := fun _ i => i ≠ .notifyPanics id)
    (I := fun t : EventBus M Ev => ∀ cursor, t.sinks id ≠ some ⟨cursor, .panicked⟩)
    ?_ hstart (stepsMeet_of_forall (by
      rintro i hmem - rfl
      exact hcode hmem) _) hrun
  intro s i t o h hi hmove cursor
  cases sinkStep_of_step id hmove with
  | sends _ _ _ _ _ hsame | other _ _ _ _ _ _ hsame =>
      rw [hsame]
      exact h cursor
  | notifyPanics => exact absurd rfl hi
  | subscribes | notifies | lags | finishes | notified =>
      rw [set_sinks, if_pos rfl]
      simp

/-- **What a sink misses.**  A sink whose subscriber does not panic has lost no
event that was broadcast since its subscription, so that it was notified of all of
them up to those that are still to come, if and only if it was less than the
capacity of the channel behind whenever an event was broadcast. -/
theorem sink_complete_iff (hcapacity : 0 < capacity)
    {inputs : List (BusInput M Ev)} (hcode : .notifyPanics id ∉ inputs)
    (hrun : execute (step cfg capacity) s (.subscribes id :: inputs) =
      some (t, seen)) :
    notifiedEvents id seen ++ t.upcoming capacity id = sentEvents seen ↔
      StepsMeet (step cfg capacity) (KeepsUp cfg capacity id) s
        (.subscribes id :: inputs) := by
  obtain ⟨hnew, hfirst, seen', rfl, hrest⟩ := subscribes_run hrun
  obtain ⟨⟨cursor, phase⟩, h⟩ := follows_of_execute hrest
  have hphase : phase ≠ .panicked := by
    rintro rfl
    refine not_panicked_of_execute hcode (fun cursor => ?_) hrest cursor h.isSink
    rw [set_sinks, if_pos rfl]
    simp
  have hupcoming : t.upcoming capacity id = t.channel.upcoming capacity cursor := by
    unfold upcoming
    rw [h.isSink]
    cases phase with
    | panicked => exact absurd rfl hphase
    | _ => rfl
  have hkeeps : KeepsUp cfg capacity id s (.subscribes id) := False.elim
  rw [stepsMeet_cons hfirst, ← not_loses_of_execute hcapacity hrest, h.not_loses_iff,
    hupcoming]
  exact (and_iff_right hkeeps).symm

/-! ### The end of a sink -/

/-- A step of this sink. -/
def isOwn (id : Nat) : BusInput M Ev → Bool
  | .receives sink => sink == id
  | .notified sink => sink == id
  | _ => false

/-- How many of the inputs are steps of this sink. -/
def ownSteps (id : Nat) (inputs : List (BusInput M Ev)) : Nat :=
  inputs.countP (isOwn id)

theorem ownSteps_receives : ownSteps id [(.receives id : BusInput M Ev)] = 1 := by
  simp [ownSteps, isOwn]

theorem ownSteps_notified : ownSteps id [(.notified id : BusInput M Ev)] = 1 := by
  simp [ownSteps, isOwn]

theorem ownSteps_other (h : i ≠ .receives id ∧ i ≠ .notified id) :
    ownSteps id [i] = 0 := by
  cases i with
  | receives sink =>
      have hne : sink ≠ id := fun heq => h.1 (heq ▸ rfl)
      simp [ownSteps, isOwn, hne]
  | notified sink =>
      have hne : sink ≠ id := fun heq => h.2 (heq ▸ rfl)
      simp [ownSteps, isOwn, hne]
  | _ => rfl

/-- The steps to the end of the sink from `recv`: a jump to the oldest event, two
steps for each event, and the last `recv`. -/
def toReceive (capacity : Nat) (b : Broadcast Ev) (cursor : Nat) : Nat :=
  (if cursor < b.oldest capacity then 1 else 0) +
    2 * (b.upcoming capacity cursor).length + 1

/-- The steps to the end of the sink. -/
def remaining (capacity : Nat) (s : EventBus M Ev) (id : Nat) : Nat :=
  match s.sinks id with
  | some ⟨cursor, .receiving⟩ => toReceive capacity s.channel cursor
  | some ⟨cursor, .notifying _⟩ => toReceive capacity s.channel cursor + 1
  | _ => 0

/-- A sink that subscribed, and whose subscriber has not panicked. -/
def Listens (s : EventBus M Ev) (id : Nat) : Prop :=
  ∃ cursor phase, s.sinks id = some ⟨cursor, phase⟩ ∧ phase ≠ .panicked

section ToReceive

variable {b : Broadcast Ev} {cursor : Nat}

theorem toReceive_value {event : Ev} (hretained : b.oldest capacity ≤ cursor)
    (hsent : b.sent[cursor]? = some event) :
    toReceive capacity b cursor = toReceive capacity b (cursor + 1) + 2 := by
  have hnext : ¬ cursor + 1 < b.oldest capacity := by omega
  have hhere : ¬ cursor < b.oldest capacity := by omega
  unfold toReceive
  rw [if_neg hhere, if_neg hnext, Broadcast.upcoming_value hretained hsent,
    List.length_cons]
  omega

theorem toReceive_lagged (hlost : cursor < b.oldest capacity) :
    toReceive capacity b cursor =
      toReceive capacity b (b.oldest capacity) + 1 := by
  unfold toReceive
  rw [if_pos hlost, if_neg (Nat.lt_irrefl _), Broadcast.upcoming_lagged hlost.le]
  omega

theorem toReceive_end (hend : b.sent.length ≤ cursor) :
    toReceive capacity b cursor = 1 := by
  have hhere : ¬ cursor < b.oldest capacity := by
    unfold Broadcast.oldest
    omega
  unfold toReceive
  rw [if_neg hhere, Broadcast.upcoming_end hend, List.length_nil]

end ToReceive

theorem remaining_receiving {cursor : Nat}
    (hsink : s.sinks id = some ⟨cursor, .receiving⟩) :
    s.remaining capacity id = toReceive capacity s.channel cursor := by
  unfold remaining
  rw [hsink]

theorem remaining_notifying {cursor : Nat} {event : Ev}
    (hsink : s.sinks id = some ⟨cursor, .notifying event⟩) :
    s.remaining capacity id = toReceive capacity s.channel cursor + 1 := by
  unfold remaining
  rw [hsink]

theorem remaining_finished {cursor : Nat}
    (hsink : s.sinks id = some ⟨cursor, .finished⟩) :
    s.remaining capacity id = 0 := by
  unfold remaining
  rw [hsink]

theorem upcoming_eq {cursor : Nat} {phase : SinkPhase Ev}
    (hsink : s.sinks id = some ⟨cursor, phase⟩) (hphase : phase ≠ .panicked) :
    s.upcoming capacity id = s.channel.upcoming capacity cursor := by
  unfold upcoming
  rw [hsink]
  cases phase with
  | panicked => exact absurd rfl hphase
  | _ => rfl

/-- One step towards the end: when the channel is closed, only the sink itself
changes what is left for it. -/
theorem drains_step (hclosed : s.channel.closed = true) (hlistens : s.Listens id)
    (hi : i ≠ .notifyPanics id) (hstep : SinkStep capacity s id i t o) :
    t.channel.closed = true ∧ t.Listens id ∧
      ownSteps id [i] + t.remaining capacity id = s.remaining capacity id ∧
      notifiedEvents id o ++ t.upcoming capacity id = s.upcoming capacity id := by
  have hset : ∀ sink : Sink Ev, (s.set id sink).sinks id = some sink := by
    intro sink
    rw [set_sinks, if_pos rfl]
  cases hstep with
  | sends input _ _ hopen => exact absurd (hopen.symm.trans hclosed) (by decide)
  | other _ _ _ hother hsent hkept hsink hquiet hnone =>
      have hreceive : ∀ cursor, toReceive capacity t.channel cursor =
          toReceive capacity s.channel cursor := by
        intro cursor
        unfold toReceive Broadcast.upcoming Broadcast.oldest
        rw [hsent]
      refine ⟨hkept hclosed, ?_, ?_, ?_⟩
      · unfold Listens
        rw [hsink]
        exact hlistens
      · unfold remaining
        rw [ownSteps_other hother, hsink]
        simp only [hreceive]
        exact Nat.zero_add _
      · unfold upcoming
        rw [hsink, hnone]
        simp only [upcoming_congr hsent]
        rfl
  | subscribes hnew =>
      obtain ⟨cursor, phase, hsink, -⟩ := hlistens
      exact absurd (hnew.symm.trans hsink) (by simp)
  | notifies cursor event hsink hretained hsent =>
      have hone : notifiedEvents id [BusObs.notifies id event] = [event] := by
        simp [notifiedEvents]
      refine ⟨hclosed, ⟨_, _, hset _, by simp⟩, ?_, ?_⟩
      · rw [ownSteps_receives, remaining_notifying (hset _), remaining_receiving hsink,
          toReceive_value hretained hsent]
        show 1 + (toReceive capacity s.channel (cursor + 1) + 1) = _
        omega
      · rw [hone, upcoming_eq (hset _) (by simp), upcoming_eq hsink (by simp)]
        exact (Broadcast.upcoming_value hretained hsent).symm
  | lags cursor hsink hlost =>
      refine ⟨hclosed, ⟨_, _, hset _, by simp⟩, ?_, ?_⟩
      · rw [ownSteps_receives, remaining_receiving (hset _), remaining_receiving hsink,
          toReceive_lagged hlost]
        exact Nat.add_comm _ _
      · rw [upcoming_eq (hset _) (by simp), upcoming_eq hsink (by simp)]
        exact Broadcast.upcoming_lagged hlost.le
  | finishes cursor hsink hend _ =>
      refine ⟨hclosed, ⟨_, _, hset _, by simp⟩, ?_, ?_⟩
      · rw [ownSteps_receives, remaining_finished (hset _), remaining_receiving hsink,
          toReceive_end hend]
      · rw [upcoming_eq (hset _) (by simp), upcoming_eq hsink (by simp)]
        rfl
  | notified cursor event hsink =>
      refine ⟨hclosed, ⟨_, _, hset _, by simp⟩, ?_, ?_⟩
      · rw [ownSteps_notified, remaining_receiving (hset _), remaining_notifying hsink]
        exact Nat.add_comm _ _
      · rw [upcoming_eq (hset _) (by simp), upcoming_eq hsink (by simp)]
        rfl
  | notifyPanics => exact absurd rfl hi

theorem ownSteps_append (is js : List (BusInput M Ev)) :
    ownSteps id (is ++ js) = ownSteps id is + ownSteps id js :=
  List.countP_append

theorem drains_of_execute (hclosed : s.channel.closed = true)
    (hlistens : s.Listens id) {inputs : List (BusInput M Ev)}
    (hcode : .notifyPanics id ∉ inputs)
    (hrun : execute (step cfg capacity) s inputs = some (t, seen)) :
    t.channel.closed = true ∧ t.Listens id ∧
      ownSteps id inputs + t.remaining capacity id = s.remaining capacity id ∧
      notifiedEvents id seen ++ t.upcoming capacity id = s.upcoming capacity id := by
  have h := execute_inputs_history (G := fun _ i => i ≠ .notifyPanics id)
    (P := fun inputs (t : EventBus M Ev) seen =>
      t.channel.closed = true ∧ t.Listens id ∧
        ownSteps id inputs + t.remaining capacity id = s.remaining capacity id ∧
        notifiedEvents id seen ++ t.upcoming capacity id = s.upcoming capacity id)
    (by
      rintro before u seen i v o ⟨hclosed, hlistens, hsteps, hevents⟩ hi hmove
      obtain ⟨hclosed', hlistens', hstep, hevent⟩ :=
        drains_step hclosed hlistens hi (sinkStep_of_step id hmove)
      refine ⟨hclosed', hlistens', ?_, ?_⟩
      · rw [ownSteps_append]
        omega
      · rw [notifiedEvents_append, List.append_assoc, hevent, hevents])
    [] [] ⟨hclosed, hlistens, Nat.zero_add _, rfl⟩
    (stepsMeet_of_forall (by
      rintro i hmem - rfl
      exact hcode hmem) _) hrun
  exact h

/-- A sink has steps left until it has finished. -/
theorem remaining_eq_zero_iff (hlistens : s.Listens id) :
    s.remaining capacity id = 0 ↔ ∃ cursor, s.sinks id = some ⟨cursor, .finished⟩ := by
  obtain ⟨cursor, phase, hsink, hphase⟩ := hlistens
  cases phase with
  | receiving =>
      rw [remaining_receiving hsink, hsink]
      simp [toReceive]
  | notifying event =>
      rw [remaining_notifying hsink, hsink]
      simp
  | finished => exact iff_of_true (remaining_finished hsink) ⟨cursor, hsink⟩
  | panicked => exact absurd rfl hphase

/-- On a closed channel no sink has to wait. -/
theorem step_of_remaining (cfg : RunnerConfig) (hclosed : s.channel.closed = true)
    (hleft : s.remaining capacity id ≠ 0) :
    ∃ i, isOwn id i = true ∧ (step cfg capacity s i).isSome := by
  cases hsink : s.sinks id with
  | none => simp [remaining, hsink] at hleft
  | some sink =>
      obtain ⟨cursor, phase⟩ := sink
      cases phase with
      | receiving =>
          refine ⟨.receives id, beq_self_eq_true id, ?_⟩
          cases hrecv : s.channel.recv capacity cursor with
          | none =>
              have hopen := (Broadcast.recv_eq_none_iff.mp hrecv).2
              exact absurd (hopen.symm.trans hclosed) (by decide)
          | some received => simp [step, hsink, hrecv]
      | notifying event =>
          exact ⟨.notified id, beq_self_eq_true id, by simp [step, hsink]⟩
      | finished | panicked => simp [remaining, hsink] at hleft

/-- A finished sink has found the channel closed, at its end. -/
theorem end_of_finished {inputs : List (BusInput M Ev)} {cursor : Nat}
    (hrun : execute (step cfg capacity) start inputs = some (s, seen))
    (hfinished : s.sinks id = some ⟨cursor, .finished⟩) :
    s.channel.closed = true ∧ s.channel.sent.length ≤ cursor := by
  refine execute_invariant (I := fun s : EventBus M Ev =>
    ∀ cursor, s.sinks id = some ⟨cursor, .finished⟩ →
      s.channel.closed = true ∧ s.channel.sent.length ≤ cursor)
    ?_ (by simp [start]) hrun cursor hfinished
  intro s i t o h hmove cursor hsink
  cases sinkStep_of_step id hmove with
  | sends _ _ _ hopen _ hsame =>
      have hclosed := (h cursor (hsame.symm.trans hsink)).1
      exact absurd (hopen.symm.trans hclosed) (by decide)
  | other _ _ _ _ hsent hkept hsame =>
      obtain ⟨hclosed, hend⟩ := h cursor (hsame.symm.trans hsink)
      exact ⟨hkept hclosed, by rwa [hsent]⟩
  | finishes _ _ hend hclosed =>
      rw [set_sinks, if_pos rfl] at hsink
      cases hsink
      exact ⟨hclosed, hend⟩
  | subscribes | notifies | lags | notified | notifyPanics =>
      rw [set_sinks, if_pos rfl] at hsink
      simp at hsink

/-- **A sink ends after the runner.**  In every run, no sink finishes before the
task of the runner has gone.  From then on, in whatever order the sinks go on, a
sink whose subscriber does not panic makes just the steps that remain, it never
waits for another task before it has finished, and it has then been notified of
what was left for it when the runner had gone. -/
theorem sink_ends_after_runner {before : List (BusInput M Ev)}
    {earlier : List (BusObs Ev)}
    (hbefore : execute (step cfg capacity) start before = some (s, earlier)) :
    (∀ id cursor, s.sinks id = some ⟨cursor, .finished⟩ → s.channel.closed = true) ∧
    (s.channel.closed = true → ∀ id, s.Listens id →
      ∀ inputs t seen, .notifyPanics id ∉ inputs →
        execute (step cfg capacity) s inputs = some (t, seen) →
        ownSteps id inputs + t.remaining capacity id = s.remaining capacity id ∧
        (t.remaining capacity id ≠ 0 →
          ∃ i, isOwn id i = true ∧ (step cfg capacity t i).isSome) ∧
        (t.remaining capacity id = 0 ↔
          ∃ cursor, t.sinks id = some ⟨cursor, .finished⟩) ∧
        (t.remaining capacity id = 0 →
          notifiedEvents id seen = s.upcoming capacity id)) := by
  refine ⟨fun id cursor hfinished => (end_of_finished hbefore hfinished).1, ?_⟩
  intro hclosed id hlistens inputs t seen hcode hrun
  obtain ⟨hclosed', hlistens', hsteps, hevents⟩ :=
    drains_of_execute hclosed hlistens hcode hrun
  refine ⟨hsteps, step_of_remaining cfg hclosed', remaining_eq_zero_iff hlistens',
    fun hdone => ?_⟩
  obtain ⟨cursor, hfinished⟩ := (remaining_eq_zero_iff hlistens').mp hdone
  have hend := (end_of_finished
    (execute_append.mpr ⟨s, earlier, seen, hbefore, hrun, rfl⟩) hfinished).2
  rw [upcoming_eq hfinished (by simp), Broadcast.upcoming_end hend,
    List.append_nil] at hevents
  exact hevents

/-- A root actor without restarts. -/
def quietRoot : RunnerConfig := ⟨false, .stop⟩

/-- The actor has started. -/
def started : List (BusInput Unit Nat) :=
  [.runs (.choice .proceed), .runs (.choice (.returns (.ok ()))),
    .runs (.choice .proceed)]

/-- A message has the actor publish two events; the sink gets the first one before
the second one is broadcast. -/
def twoEvents : List (BusInput Unit Nat) :=
  [.runs (.arrival (.message ())), .runs (.choice .takeMessage),
    .runs (.choice (.operation (.publishEvent 1))),
    .runs (.choice (.operation (.publishEvent 2))),
    .runs (.choice (.returns (.ok ()))), .runs (.choice .takeInner), .receives 0,
    .runs (.choice .takeInner), .notified 0]

/-- The actor is stopped. -/
def stopped : List (BusInput Unit Nat) :=
  [.runs (.arrival (.stop ⟨.outside, none⟩)), .runs (.choice .takeStop),
    .runs (.choice (.returns (.ok ()))), .runs (.choice .proceed),
    .runs (.choice .proceed), .runs (.choice .proceed), .runs (.choice .proceed),
    .runs (.choice .proceed), .runs (.choice (.returns (.ok ()))),
    .runs (.choice .proceed), .runs (.choice .proceed)]

theorem twoEvents_in_order :
    ∃ s earlier t seen,
      execute (step quietRoot minCapacity) start started = some (s, earlier) ∧
      execute (step quietRoot minCapacity) s (.subscribes 0 :: twoEvents) =
        some (t, seen) ∧
      notifiedEvents 0 seen = [1] ∧
      List.Sublist (notifiedEvents 0 seen) (sentEvents seen) := by
  obtain ⟨⟨s, earlier⟩, hbefore⟩ := Option.isSome_iff_exists.mp
    (show (execute (step quietRoot minCapacity) start started).isSome from rfl)
  obtain ⟨⟨t, seen⟩, hafter⟩ := Option.isSome_iff_exists.mp
    (show (execute (step quietRoot minCapacity) s
      (.subscribes 0 :: twoEvents)).isSome by
        cases hbefore
        rfl)
  refine ⟨s, earlier, t, seen, hbefore, hafter, ?_,
    (sink_notified_in_order hbefore hafter).1⟩
  cases hbefore
  cases hafter
  rfl

/-- With room for one event the sink has lost nothing: it was never more than one
event behind. -/
theorem twoEvents_complete :
    ∃ s earlier t seen,
      execute (step quietRoot 1) start started = some (s, earlier) ∧
      execute (step quietRoot 1) s (.subscribes 0 :: twoEvents) = some (t, seen) ∧
      StepsMeet (step quietRoot 1) (KeepsUp quietRoot 1 0) s
        (.subscribes 0 :: twoEvents) := by
  obtain ⟨⟨s, earlier⟩, hbefore⟩ := Option.isSome_iff_exists.mp
    (show (execute (step quietRoot 1) start started).isSome from rfl)
  obtain ⟨⟨t, seen⟩, hafter⟩ := Option.isSome_iff_exists.mp
    (show (execute (step quietRoot 1) s (.subscribes 0 :: twoEvents)).isSome by
        cases hbefore
        rfl)
  refine ⟨s, earlier, t, seen, hbefore, hafter,
    (sink_complete_iff (by decide) (by simp [twoEvents]) hafter).mp ?_⟩
  cases hbefore
  cases hafter
  rfl

/-- The actor is gone when the second event is left for the sink, which gets it
and finishes. -/
theorem twoEvents_ends :
    ∃ s earlier t seen,
      execute (step quietRoot minCapacity) start
          (started ++ .subscribes 0 :: twoEvents ++ stopped) = some (s, earlier) ∧
      execute (step quietRoot minCapacity) s
          [.receives 0, .notified 0, .receives 0] = some (t, seen) ∧
      t.remaining minCapacity 0 = 0 ∧ notifiedEvents 0 seen = [2] := by
  obtain ⟨⟨s, earlier⟩, hbefore⟩ := Option.isSome_iff_exists.mp
    (show (execute (step quietRoot minCapacity) start
      (started ++ .subscribes 0 :: twoEvents ++ stopped)).isSome from rfl)
  obtain ⟨⟨t, seen⟩, hafter⟩ := Option.isSome_iff_exists.mp
    (show (execute (step quietRoot minCapacity) s
      [.receives 0, .notified 0, .receives 0]).isSome by
        cases hbefore
        rfl)
  have hend : s.channel.closed = true ∧ s.Listens 0 ∧
      t.remaining minCapacity 0 = 0 ∧ s.upcoming minCapacity 0 = [2] := by
    cases hbefore
    cases hafter
    exact ⟨rfl, ⟨1, .receiving, rfl, by simp⟩, rfl, rfl⟩
  obtain ⟨hclosed, hlistens, hdone, hupcoming⟩ := hend
  have hdrains := (sink_ends_after_runner hbefore).2 hclosed 0 hlistens _ t seen
    (by simp) hafter
  exact ⟨s, earlier, t, seen, hbefore, hafter, hdone,
    (hdrains.2.2.2 hdone).trans hupcoming⟩

end EventBus

end Actor
end Rush
