import Rush.Actor.AskAnswers

/-!
# An actor is a linearizable object

Whoever asks an actor sees it as an object that serves one request at a time:
the end of `handle_message` is the point where a request takes effect.  Between
two requests the other hooks may change the actor.
-/

namespace Rush
namespace Actor

open Foundation

variable {σ Msg Ev Resp χ : Type}

/-- A request to an actor: the path of the sender and the message. -/
abbrev ActorRequest (Msg : Type) := ActorPath × Msg

/-- The user's code as a sequential object. -/
def ActorCode.object (code : ActorCode σ Msg Resp χ) :
    SequentialObject σ (ActorRequest Msg) (Except ActorError Resp) where
  serves a request result b :=
    ∃ oracle, code.handleMessage a request.1 request.2 oracle = (some result, b)
  moves a b := ∃ hook oracle, code.hook a hook oracle = (some (), b)

namespace MessagingObs

/-- An `ask` invokes, `handle_message` takes effect, and the result responds. -/
def mark : MessagingObs Msg Ev Resp χ →
    Option (Mark Nat (ActorRequest Msg) (Except ActorError Resp))
  | .accepted m => m.rsvp.map fun call => .invoked call (m.sender, m.message)
  | .handled m result _ => some (.took ⟨m.rsvp, (m.sender, m.message), result⟩)
  | .returned call result => some (.responded call result)
  | _ => none

end MessagingObs

namespace Messaging

/-- The marks of a trace. -/
def marks (seen : List (MessagingObs Msg Ev Resp χ)) :
    List (Mark Nat (ActorRequest Msg) (Except ActorError Resp)) :=
  seen.filterMap MessagingObs.mark

variable {cfg : RunnerConfig} {code : ActorCode σ Msg Resp χ}
  {s t : Messaging σ Msg Ev Resp} {i : MessagingInput Msg Ev χ}
  {seen o : List (MessagingObs Msg Ev Resp χ)}

section Lists

variable (seen o)

@[simp] theorem marks_append : marks (seen ++ o) = marks seen ++ marks o :=
  List.filterMap_append

theorem marks_runner (os : List (Obs (ActorMessage Msg) Ev)) :
    marks (os.map .runner : List (MessagingObs Msg Ev Resp χ)) = [] := by
  simp [marks, MessagingObs.mark]

/-- The effects are the handled messages. -/
theorem effects_marks : effects (marks seen) =
    (handledMessages seen).map
      fun p => ⟨p.1.rsvp, (p.1.sender, p.1.message), p.2⟩ := by
  unfold effects marks handledMessages
  rw [List.filterMap_filterMap, List.map_filterMap]
  congr 1
  funext x
  cases x with
  | accepted m => cases hrsvp : m.rsvp <;> simp [MessagingObs.mark, hrsvp, Mark.effect?]
  | _ => rfl

theorem callers_effects :
    callers (effects (marks seen)) = askers ((handledMessages seen).map Prod.fst) := by
  rw [effects_marks]
  unfold callers askers
  rw [List.filterMap_map, List.filterMap_map]
  rfl

end Lists

/-- While the task lives the actor is where the object is; a panic leaves it
somewhere else. -/
def FollowsObject (code : ActorCode σ Msg Resp χ) (b : σ)
    (s : Messaging σ Msg Ev Resp) : Prop :=
  (s.panicked = false → s.actor = b) ∧
    (s.panicked = true → ∃ hook oracle, code.Panics b oracle s.actor hook)

/-- The marks are in place, and the actor follows the object. -/
structure Marked (code : ActorCode σ Msg Resp χ) (actor : σ)
    (s : Messaging σ Msg Ev Resp) (seen : List (MessagingObs Msg Ev Resp χ)) :
    Prop where
  conversation : s.Conversation seen
  pointed : ∃ b, Pointed code.object actor b (marks seen) ∧
    s.FollowsObject code b

theorem invoked_of_pending (h : s.Conversation seen) {m : ActorMessage Msg}
    {call : Nat} (hmem : m ∈ s.runner.pendingMessages) (hrsvp : m.rsvp = some call) :
    .invoked call (m.sender, m.message) ∈ marks seen := by
  have haccepted : m ∈ acceptedMessages seen := by
    rw [h.fifo]
    exact List.mem_append_right _ hmem
  obtain ⟨x, hx, hmessage⟩ := List.mem_filterMap.mp haccepted
  refine List.mem_filterMap.mpr ⟨x, hx, ?_⟩
  cases x with
  | accepted m' =>
      cases hmessage
      simp [MessagingObs.mark, hrsvp]
  | _ => contradiction

theorem pointed_unmarked {a b : σ}
    (h : Pointed code.object a b (marks seen)) (ho : marks o = []) :
    Pointed code.object a b (marks seen ++ marks o) := by
  rwa [ho, List.append_nil]

theorem Marked.start (actor : σ) :
    Marked code actor (Messaging.start actor : Messaging σ Msg Ev Resp)
      ([] : List (MessagingObs Msg Ev Resp χ)) :=
  ⟨Conversation.start actor, actor, Pointed.start actor, fun _ => rfl,
    fun h => nomatch h⟩

theorem followsObject_of_alive {b : σ} (halive : s.panicked = false)
    (hactor : s.actor = b) : s.FollowsObject code b :=
  ⟨fun _ => hactor, fun h => absurd (halive.symm.trans h) (by decide)⟩

theorem Marked.step {actor : σ} (h : Marked code actor s seen)
    (hmove : Messaging.step cfg code s i = some (t, o)) :
    Marked code actor t (seen ++ o) := by
  obtain ⟨hconversation, b, hpointed, hactor⟩ := h
  refine ⟨hconversation.step hmove, ?_⟩
  rw [marks_append]
  cases step_transition hmove with
  | tellRefused sender message hclosed =>
      exact ⟨b, pointed_unmarked hpointed rfl, hactor⟩
  | tells sender message r hopen harrive =>
      exact ⟨b, pointed_unmarked hpointed rfl, hactor⟩
  | askRefused call sender message hcall hclosed =>
      exact ⟨b, pointed_unmarked hpointed rfl, hactor⟩
  | asks call sender message r hcall hopen harrive =>
      exact ⟨b, hpointed.invoked call (sender, message), hactor⟩
  | answered call result hcall =>
      refine ⟨b, hpointed.responded ?_, hactor⟩
      obtain ⟨m, hm, hrsvp⟩ := (hconversation.got call result).mp (Or.inl hcall)
      refine ⟨⟨m.rsvp, (m.sender, m.message), result⟩, ?_, hrsvp, rfl⟩
      rw [effects_marks]
      exact List.mem_map.mpr ⟨(m, result), hm, rfl⟩
  | lost call hcall =>
      exact ⟨b, pointed_unmarked hpointed rfl, hactor⟩
  | handles input oracle r os m result actor' halive hstep hinput hfinish hcode =>
      obtain ⟨hpending, -⟩ := Runner.pending_of_finishes hstep hfinish
      have hmarks : marks (.handled m result oracle :: os.map .runner :
          List (MessagingObs Msg Ev Resp χ)) =
          [.took ⟨m.rsvp, (m.sender, m.message), result⟩] :=
        congrArg (_ :: ·) (marks_runner os)
      rw [hmarks]
      refine ⟨actor', hpointed.took _ ⟨oracle, ?_⟩ ?_,
        followsObject_of_alive ?_ ?_⟩
      · rw [← hactor.1 halive]
        exact hcode
      · intro call hrsvp
        have hmem : m ∈ s.runner.pendingMessages := by
          rw [hpending]
          exact List.mem_cons_self
        refine ⟨invoked_of_pending hconversation hmem hrsvp, fun hin => ?_⟩
        rw [callers_effects] at hin
        obtain ⟨m', hm', hrsvp'⟩ := mem_askers.mp hin
        obtain ⟨⟨m'', result'⟩, hhandled, rfl⟩ := List.mem_map.mp hm'
        exact (hconversation.not_pending_of_handled hhandled hrsvp').2
          (mem_askers.mpr ⟨m, hmem, hrsvp⟩)
      · cases m.rsvp <;> exact halive
      · cases m.rsvp <;> rfl
  | hooks input oracle r os hook actor' halive hstep hinput hfinish hhook hcode =>
      have hmarks : marks (.hooked hook oracle :: os.map .runner :
          List (MessagingObs Msg Ev Resp χ)) = [] := marks_runner os
      refine ⟨actor', pointed_unmarked (hpointed.moves ⟨hook, oracle, ?_⟩) hmarks,
        followsObject_of_alive halive rfl⟩
      rw [← hactor.1 halive]
      exact hcode
  | panics input oracle actor' hook halive hfinish hcode =>
      refine ⟨b, pointed_unmarked hpointed rfl, ?_, fun _ => ⟨hook, oracle, ?_⟩⟩
      · simp [Messaging.panics]
      · rw [← hactor.1 halive]
        exact hcode
  | runs input oracle r os halive hstep hinput hfinish =>
      exact ⟨b, pointed_unmarked hpointed (marks_runner os), hactor⟩

theorem marked_of_execute {actor : σ} {inputs : List (MessagingInput Msg Ev χ)}
    (hrun : execute (Messaging.step cfg code) (Messaging.start actor) inputs =
      some (s, seen)) : Marked code actor s seen :=
  execute_history (G := fun _ _ => True) (P := Marked code actor)
    (fun _ _ _ _ _ h _ hstep => h.step hstep) [] (Marked.start actor)
    (stepsMeet_true _ _) hrun

/-- **Asking an actor is linearizable.**  In every run with any number of callers
the handled messages, in the order of their handling, are a linearization of
what the callers see: run one after the other through the user's code they give
the results that were returned, and a request that was made after another one
had its result is handled after it. -/
theorem ask_linearizable {actor : σ} {inputs : List (MessagingInput Msg Ev χ)}
    (hrun : execute (step cfg code) (start actor) inputs = some (s, seen)) :
    ∃ b, Linearizes code.object actor b (callHistory (marks seen))
        ((handledMessages seen).map
          fun p => ⟨p.1.rsvp, (p.1.sender, p.1.message), p.2⟩) ∧
      s.FollowsObject code b := by
  obtain ⟨-, b, hpointed, hactor⟩ := marked_of_execute hrun
  refine ⟨b, ?_, hactor⟩
  rw [← effects_marks]
  exact hpointed.linearizes

/-- Two requests whose first one is answered: the sums are those of one
request after the other. -/
theorem twoAsks_linearizable :
    ∃ s seen b, execute (step plainActor adding) (start 0)
        (twoAsks ++ [.resumes 0]) = some (s, seen) ∧
      s.calls 0 = some (.returned (.ok 2)) ∧
      Linearizes adding.object 0 b (callHistory (marks seen))
        [⟨some 0, (callerPath, 2), .ok 2⟩] := by
  obtain ⟨⟨s, seen⟩, hrun⟩ := Option.isSome_iff_exists.mp
    (show (execute (step plainActor adding) (start 0)
      (twoAsks ++ [.resumes 0])).isSome from rfl)
  obtain ⟨b, hlinear, -⟩ := ask_linearizable hrun
  refine ⟨s, seen, b, hrun, ?_, ?_⟩
  · cases hrun
    rfl
  · have hhandled :
        handledMessages seen = [(⟨2, callerPath, some 0⟩, .ok 2)] := by
      cases hrun
      rfl
    rwa [hhandled] at hlinear

end Messaging

end Actor
end Rush
