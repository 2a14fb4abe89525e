import Rush.Actor.ErrorReports

/-!
# The answers to faults

A child that has sent a fault waits for the action of its parent, whose
`on_child_fault` is called with the fault and returns it.  An actor sends one
fault in its life at most: whatever the answer, it stops itself, and its stop
signal stays set.  So the two ends of the channel agree: the parent alone is
asked, about this fault and once, and the action that the child takes is the one
that was returned.
-/

namespace Rush
namespace Actor

open Foundation

variable {M Ev : Type}

/-- The fault that an actor sends. -/
def Obs.fault : Obs M Ev → Option ActorError
  | .sentFault e => some e
  | _ => none

/-- The action that is returned for a fault of a child. -/
def Obs.answerTo (c : Nat) : Obs M Ev → Option ChildAction
  | .childAction sender action => if sender = c then some action else none
  | _ => none

/-- The channel of a fault is opened or answered. -/
def Obs.onFault : Obs M Ev → Bool
  | .sentFault _ => true
  | .childAction _ _ => true
  | _ => false

/-- The fault of a child among the reports. -/
def ChildError.faultOf (c : Nat) : ChildError → Option ActorError
  | .fault e sender => if sender = c then some e else none
  | .error _ => none

namespace Runner

/-- After a fault, and whenever it stops itself, an actor takes no inner action any
more. -/
def Spent (r : Runner M Ev) : Prop :=
  r.stopSignal = true ∨ r.phase = .awaitingAction ∨ r.phase = .stoppingItself

/-- `on_child_fault` is running for a fault of the child. -/
def inFault (c : Nat) (r : Runner M Ev) : Nat :=
  match r.phase with
  | .inHook (.onChildFault _ sender) => if sender = c then 1 else 0
  | _ => 0

variable {cfg : RunnerConfig} {r r' : Runner M Ev} {o : List (Obs M Ev)}

/-- A fault is sent by an actor that has not sent one, and it stays the last. -/
theorem Transition.spends (ht : Transition cfg r r' o) :
    o.filterMap Obs.fault = [] ∧ (r.Spent → r'.Spent) ∨
      (o.filterMap Obs.fault).length = 1 ∧ ¬ r.Spent ∧ r'.Spent := by
  unfold Spent
  cases ht with
  | takesFailAsChild e rest hphase hsignal =>
      exact Or.inr ⟨rfl, by simp [hphase, hsignal], by simp⟩
  | operates hook op r' hphase hop =>
      obtain ⟨hphase', -, hsignal, -⟩ := operate_frame hop
      rw [hphase', hsignal]
      exact Or.inl ⟨rfl, id⟩
  | entersRun hphase =>
      left
      split <;> simp [hphase, Obs.fault]
  | restarts strategy hphase =>
      left
      cases strategy.nextBackoff.1 <;> simp [hphase, Obs.fault]
  | ends hphase =>
      left
      split <;> simp [hphase, Obs.fault]
  | takesError e rest hphase =>
      left
      split <;> simp [hphase, Obs.fault]
  | arrives => exact Or.inl ⟨rfl, id⟩
  | _ => exact Or.inl ⟨rfl, by simp_all [emitFail]⟩

/-- What the hook is told of a child and what it returns are in step. -/
theorem Transition.inFault (ht : Transition cfg r r' o) (c : Nat) :
    r.inFault c + ((o.filterMap Obs.told).filterMap (ChildError.faultOf c)).length =
      (o.filterMap (Obs.answerTo c)).length + r'.inFault c := by
  unfold Runner.inFault
  cases ht with
  | answers e sender action hphase =>
      simp only [hphase, List.filterMap_cons, List.filterMap_nil, Obs.told,
        Obs.answerTo, List.length_nil]
      split <;> rfl
  | takesChildError error rest hook hphase hsignal hqueue hhook =>
      rcases hhook with ⟨e, rfl, rfl⟩ | ⟨e, sender, rfl, rfl⟩
      · simp [hphase, List.filterMap_cons, Obs.told, Obs.answerTo,
          ChildError.faultOf]
      · by_cases heq : sender = c <;>
          simp [hphase, List.filterMap_cons, Obs.told, Obs.answerTo,
            ChildError.faultOf, heq]
  | operates hook op r' hphase hop => simp [(operate_frame hop).1]
  | handles hook hphase hhook =>
      rcases hhook with ⟨e, rfl⟩ | ⟨m, rfl⟩ <;> simp [hphase]
  | entersRun hphase | ends hphase =>
      simp only [hphase]
      cases r.signal <;> simp [List.filterMap_cons, Obs.told, Obs.answerTo]
  | takesError e rest hphase =>
      simp only [hphase]
      cases cfg.hasParent <;> simp [List.filterMap_cons, Obs.told, Obs.answerTo]
  | restarts strategy hphase =>
      simp only [hphase]
      cases strategy.nextBackoff.1 <;>
        simp [List.filterMap_cons, Obs.told, Obs.answerTo]
  | arrives => simp
  | _ => simp_all [List.filterMap_cons, Obs.told, Obs.answerTo]

/-- A step that sends a fault or answers one does nothing else. -/
theorem onFault_of_step {choice : Choice Ev}
    (h : step cfg r (.choice choice) = some (r', o)) :
    (∀ y ∈ o, y.onFault = false) ∨
      (∃ e, choice = .takeInner ∧ o = [.sentFault e]) ∨
      ∃ e sender action, choice = .answers action ∧
        r.phase = .inHook (.onChildFault e sender) ∧
        o = [.childAction sender action] := by
  have hprivate : ∀ y : Obs M Ev, y.isPrivate = true → y.onFault = false := by
    intro y hy
    cases y <;> simp_all [Obs.isPrivate, Obs.onFault]
  cases step_handshake h with
  | alone _ _ _ _ _ hos | takesAction _ _ _ _ _ hos =>
      exact Or.inl fun y hy => hprivate y (hos y hy)
  | acknowledges request _ os _ _ _ _ hos =>
      left
      intro y hy
      rcases List.mem_cons.mp hy with rfl | hy
      · rfl
      · exact hprivate y (hos y hy)
  | sendsFault _ e => exact Or.inr (Or.inl ⟨e, rfl, rfl⟩)
  | answers e sender action _ hphase =>
      exact Or.inr (Or.inr ⟨e, sender, action, rfl, hphase, rfl⟩)
  | sendsError | asks | hears => exact Or.inl (by simp [Obs.onFault])

section Execution

variable {inputs : List (Input M Ev)} {seen : List (Obs M Ev)}

/-- An actor sends one fault in its life at most. -/
theorem faults_of_execute
    (hrun : execute (step cfg) create inputs = some (r, seen)) :
    (seen.filterMap Obs.fault).length ≤ 1 := by
  have hspent := execute_history (G := fun _ _ => True)
    (P := fun r seen => seen.filterMap Obs.fault = [] ∨
      (seen.filterMap Obs.fault).length = 1 ∧ r.Spent)
    ?_ [] (Or.inl rfl) (stepsMeet_true create inputs) hrun
  · rcases hspent with hnone | ⟨hone, -⟩
    · exact hnone ▸ Nat.zero_le 1
    · exact hone.le
  · intro r seen i r' o hold _ hstep
    rw [List.filterMap_append]
    rcases (step_transition hstep).spends with ⟨hquiet, hkeeps⟩ |
      ⟨hsends, hfresh, hspent⟩
    · rw [hquiet, List.append_nil]
      exact hold.imp_right fun hone => ⟨hone.1, hkeeps hone.2⟩
    -- it was not spent, so this fault is the first one
    · rcases hold with hnone | ⟨-, hspent⟩
      · exact Or.inr ⟨by rw [hnone, List.nil_append, hsends], hspent⟩
      · exact absurd hspent hfresh

/-- The faults that were told and not answered: at most the one in the hook. -/
theorem answers_of_execute (c : Nat)
    (hrun : execute (step cfg) create inputs = some (r, seen)) :
    ((seen.filterMap Obs.told).filterMap (ChildError.faultOf c)).length =
      (seen.filterMap (Obs.answerTo c)).length + r.inFault c := by
  refine execute_history (G := fun _ _ => True)
    (P := fun r seen =>
      ((seen.filterMap Obs.told).filterMap (ChildError.faultOf c)).length =
        (seen.filterMap (Obs.answerTo c)).length + r.inFault c)
    ?_ [] (by simp [inFault, create]) (stepsMeet_true create inputs) hrun
  intro r seen i r' o hold _ hstep
  have hmove := (step_transition hstep).inFault c
  simp only [List.filterMap_append, List.length_append]
  omega

end Execution

end Runner

namespace Hierarchy

variable {h t : Hierarchy M Ev} {i : HierarchyInput M Ev}
  {o seen : List (HierarchyObs M Ev)} {p c x : Nat}

/-- The faults that an actor has sent. -/
def faultsOf (c : Nat) (seen : List (HierarchyObs M Ev)) : List ActorError :=
  (System.observed c (systemSeen seen)).filterMap Obs.fault

/-- The faults of a child that `on_child_fault` of an actor was called with. -/
def faultsTold (x c : Nat) (seen : List (HierarchyObs M Ev)) : List ActorError :=
  (told x seen).filterMap (ChildError.faultOf c)

/-- The actions that `on_child_fault` of an actor has returned for a child. -/
def answersTo (x c : Nat) (seen : List (HierarchyObs M Ev)) : List ChildAction :=
  (System.observed x (systemSeen seen)).filterMap (Obs.answerTo c)

/-- A report of a call is a fault of this call only. -/
theorem report_faultOf (call c : Nat) (obs : Obs M Ev) :
    (obs.report call).bind (ChildError.faultOf c) =
      if call = c then obs.fault else none := by
  cases obs <;> simp [Obs.report, Obs.fault, ChildError.faultOf]

/-- The faults of a child among the reports to an actor: all, or none if another
actor has created it. -/
theorem reported_faultOf (h : Hierarchy M Ev) (x c : Nat)
    (seen : List (HierarchyObs M Ev)) :
    (h.reported x seen).filterMap (ChildError.faultOf c) =
      if h.isParent x c then faultsOf c seen else [] := by
  have hall : (h.reported x seen).filterMap (ChildError.faultOf c) =
      seen.filterMap fun y => if h.isParent x c then
        ((y.toSystem).bind (SystemObs.ofCall c)).bind Obs.fault else none := by
    unfold reported
    rw [List.filterMap_filterMap]
    refine List.filterMap_congr fun y _ => ?_
    rcases y with y | _ | _
    · cases y with
      | does call path obs =>
          have hreport := report_faultOf call c obs
          by_cases heq : call = c
          · subst heq
            cases hparent : h.isParent x call <;>
              simp [HierarchyObs.toSystem, SystemObs.ofCall, hparent, hreport]
          · rw [if_neg heq] at hreport
            cases hparent : h.isParent x call <;>
              simp [HierarchyObs.toSystem, SystemObs.ofCall, hparent, hreport, heq]
      | _ => simp [HierarchyObs.toSystem, SystemObs.ofCall]
    · simp [HierarchyObs.toSystem]
    · simp [HierarchyObs.toSystem]
  rw [hall]
  split
  · simp only [faultsOf, System.observed, systemSeen, List.filterMap_filterMap,
      Option.bind_assoc]
  · exact List.filterMap_eq_nil_iff.mpr fun _ _ => rfl

section Logs

variable {inputs : List (HierarchyInput M Ev)}
  (hrun : execute step empty inputs = some (h, seen))

include hrun

theorem faultsOf_length_le (c : Nat) : (faultsOf c seen).length ≤ 1 := by
  unfold faultsOf
  rcases observed_cases hrun c with ⟨path, cfg, r, is, -, hrunner⟩ | hnone
  · exact Runner.faults_of_execute hrunner
  · simp [hnone]

/-- Only the parent is told of a fault, and of one that the child has sent. -/
theorem faultsTold_among (x c : Nat) :
    faultsTold x c seen <+: if h.isParent x c then faultsOf c seen else [] := by
  rcases observed_cases hrun x with ⟨path, cfg, r, is, hx, -⟩ | hnone
  · have htold := (List.prefix_append _ _).trans (reports_of_execute hrun hx).order
    rw [← reported_faultOf]
    exact htold.filterMap _
  · simp [faultsTold, told_eq, hnone]

/-- A fault is answered once at most, and not while the hook is running. -/
theorem faultsTold_length {path : ActorPath} {cfg : RunnerConfig} {r : Runner M Ev}
    (hx : h.system.creations x = .running path cfg r) (c : Nat) :
    (faultsTold x c seen).length = (answersTo x c seen).length + r.inFault c := by
  obtain ⟨is, hrunner⟩ := runner_of_execute hrun hx
  rw [faultsTold, told_eq]
  exact Runner.answers_of_execute c hrunner

theorem answersTo_length_le (x c : Nat) :
    (answersTo x c seen).length ≤ (faultsTold x c seen).length := by
  rcases observed_cases hrun x with ⟨path, cfg, r, is, hx, -⟩ | hnone
  · rw [faultsTold_length hrun hx c]
    exact Nat.le_add_right _ _
  · simp [answersTo, hnone]

/-- Who was told of no fault has answered none. -/
theorem answersTo_of_faultsTold (hnone : faultsTold x c seen = []) :
    answersTo x c seen = [] := by
  have hle := answersTo_length_le hrun x c
  rw [hnone] at hle
  exact List.eq_nil_of_length_eq_zero (Nat.le_zero.mp hle)

/-- Before a child has sent a fault no answer is given to it. -/
theorem answersTo_of_no_fault (hnone : faultsOf c seen = []) (x : Nat) :
    answersTo x c seen = [] := by
  have htold := faultsTold_among hrun x c
  rw [hnone, ite_self, List.prefix_nil] at htold
  exact answersTo_of_faultsTold hrun htold

/-- While `on_child_fault` runs for a child, no answer was given to it. -/
theorem answersTo_of_inFault {path : ActorPath} {cfg : RunnerConfig}
    {r : Runner M Ev} {e : ActorError}
    (hx : h.system.creations x = .running path cfg r)
    (hphase : r.phase = .inHook (.onChildFault e c)) :
    answersTo x c seen = [] := by
  have hle := (faultsTold_among hrun x c).length_le
  have hone := faultsOf_length_le hrun c
  have hlength := faultsTold_length hrun hx c
  have hin : r.inFault c = 1 := by simp [Runner.inFault, hphase]
  refine List.eq_nil_of_length_eq_zero ?_
  split at hle
  · omega
  · simp only [List.length_nil] at hle
    omega

end Logs

section Channel

variable {call : Nat} {path : ActorPath} {os : List (Obs M Ev)} {choice : Choice Ev}

/-- The channel of a fault says what was answered. -/
structure Agrees (h : Hierarchy M Ev) (seen : List (HierarchyObs M Ev)) (p c : Nat) :
    Prop where
  waiting : h.fault c = .waiting → answersTo p c seen = []
  answered : ∀ action, h.fault c = .answered action → answersTo p c seen = [action]

/-- What does not concern a fault leaves its channel alone. -/
theorem fault_hear (call : Nat) (path : ActorPath) {os : List (Obs M Ev)}
    (hos : ∀ y ∈ os, y.onFault = false) (h : Hierarchy M Ev) :
    ((os.map (.does call path)).foldl hear h).fault = h.fault := by
  induction os generalizing h with
  | nil => rfl
  | cons y os ih =>
      have hrest := ih (fun z hz => hos z (List.mem_cons_of_mem y hz)) (h.does call y)
      refine hrest.trans ?_
      have hy : y.onFault = false := hos y (by simp)
      cases y with
      | sentFault e | childAction sender action => contradiction
      | sentError e => exact (toParent_becomes h call (.error e)).fault
      | stopChild child =>
          exact (deliver_becomes h child (.stop (stopRequest child))).fault
      | acknowledged request =>
          simp only [does]
          split <;> rfl
      | _ => rfl

/-- A choice closes the channel or leaves it alone. -/
theorem chose_fault (h : Hierarchy M Ev) (call : Nat) (choice : Choice Ev) (c : Nat) :
    (h.chose call choice).fault c = .closed ∨
      (h.chose call choice).fault c = h.fault c := by
  unfold chose
  split
  · split <;> exact Or.inr rfl
  · by_cases heq : c = call <;> simp [heq]
  · exact Or.inr rfl

theorem answersTo_ran (h : Hierarchy M Ev) (p c call : Nat) (choice : Choice Ev)
    (path : ActorPath) (os : List (Obs M Ev)) (seen : List (HierarchyObs M Ev)) :
    answersTo p c (seen ++ ((os.map (.does call path)).map .system ++
      h.closes call choice)) = answersTo p c seen ++
        if call = p then os.filterMap (Obs.answerTo c) else [] := by
  unfold answersTo
  rw [systemSeen_append, System.observed_append, observed_ran,
    List.filterMap_append]
  congr 1
  split <;> rfl

theorem answerTo_of_not_onFault (hos : ∀ y ∈ os, y.onFault = false) (c : Nat) :
    os.filterMap (Obs.answerTo c) = [] := by
  refine List.filterMap_eq_nil_iff.mpr fun y hy => ?_
  have hnot := hos y hy
  cases y <;> simp_all [Obs.onFault, Obs.answerTo]

/-- The same answers, and a channel that is the same or closed. -/
theorem Agrees.congr (hagrees : Agrees h seen p c)
    (hanswers : answersTo p c (seen ++ o) = answersTo p c seen)
    (hfault : t.fault c = .closed ∨ t.fault c = h.fault c) :
    Agrees t (seen ++ o) p c := by
  rcases hfault with hclosed | hsame
  · constructor
    · simp [hclosed]
    · simp [hclosed]
  · constructor
    · rw [hsame, hanswers]
      exact hagrees.waiting
    · rw [hsame, hanswers]
      exact hagrees.answered

variable {inputs : List (HierarchyInput M Ev)}
  (hrun : execute step empty inputs = some (h, seen))

include hrun

/-- Who sends a fault has not sent one before, so nothing was answered. -/
theorem Agrees.sends {e : ActorError} (hagrees : Agrees h seen p c)
    (hfaults : faultsOf call (seen ++ o) = faultsOf call seen ++ [e])
    (hone : (faultsOf call (seen ++ o)).length ≤ 1)
    (hanswers : answersTo p c (seen ++ o) = answersTo p c seen)
    (hfault : t.fault = Function.update h.fault call .waiting) :
    Agrees t (seen ++ o) p c := by
  by_cases heq : c = call
  · subst heq
    have hnone : faultsOf c seen = [] := by
      rw [hfaults, List.length_append, List.length_singleton] at hone
      exact List.eq_nil_of_length_eq_zero (by omega)
    constructor
    · intro _
      rw [hanswers]
      exact answersTo_of_no_fault hrun hnone p
    · simp [hfault]
  · exact hagrees.congr hanswers (Or.inr (by simp [hfault, heq]))

/-- The action goes to the child whose fault the hook was called with. -/
theorem Agrees.answers {e : ActorError} {sender : Nat} {action : ChildAction}
    {cfg : RunnerConfig} {r : Runner M Ev} (hagrees : Agrees h seen p c)
    (hcall : h.system.creations call = .running path cfg r)
    (hphase : r.phase = .inHook (.onChildFault e sender)) (hc : h.CreatedBy p c)
    (hanswers : answersTo p c (seen ++ o) = answersTo p c seen ++
      if call = p then ([.childAction sender action] : List (Obs M Ev)).filterMap
        (Obs.answerTo c) else [])
    (hfault : t.fault = if h.fault sender = .waiting then
      Function.update h.fault sender (.answered action) else h.fault) :
    Agrees t (seen ++ o) p c := by
  by_cases heq : sender = c
  · subst heq
    have hcreator := (wired_of_execute hrun).faults call path cfg r e sender hcall
      (Or.inr hphase)
    obtain rfl : call = p := hcreator.unique hc
    have hnone := answersTo_of_inFault hrun hcall hphase
    have hnow : answersTo call sender (seen ++ o) = [action] := by
      rw [hanswers, hnone]
      simp [Obs.answerTo]
    by_cases hwaiting : h.fault sender = .waiting
    · rw [if_pos hwaiting] at hfault
      constructor
      · simp [hfault]
      · intro action' hanswered
        obtain rfl : action = action' := by simpa [hfault] using hanswered
        exact hnow
    · rw [if_neg hwaiting] at hfault
      constructor
      · intro hopen
        exact absurd (hfault ▸ hopen) hwaiting
      · intro action' hanswered
        -- an answer that was not taken yet would have been the first one
        have hfirst := hagrees.answered action' (hfault ▸ hanswered)
        rw [hnone] at hfirst
        contradiction
  · have hother : ([.childAction sender action] : List (Obs M Ev)).filterMap
        (Obs.answerTo c) = [] := by
      simp [Obs.answerTo, heq]
    rw [hother, ite_self, List.append_nil] at hanswers
    refine hagrees.congr hanswers (Or.inr ?_)
    rw [hfault]
    split
    · simp [Ne.symm heq]
    · rfl

theorem Agrees.run (hstep : h.step (.run call choice) = some (t, o))
    (hc : h.CreatedBy p c) (hagrees : Agrees h seen p c) :
    Agrees t (seen ++ o) p c := by
  have hone := faultsOf_length_le
    (execute_append.mpr ⟨h, seen, o, hrun, execute_single hstep, rfl⟩) call
  cases step_transition hstep with
  | runs _ _ path cfg r r' os hmay hcall hrunner =>
      have hanswers := answersTo_ran h p c call choice path os seen
      rcases Runner.onFault_of_step hrunner with hquiet | ⟨e, rfl, rfl⟩ |
        ⟨e, sender, action, rfl, hphase, rfl⟩
      · rw [answerTo_of_not_onFault hquiet, ite_self, List.append_nil] at hanswers
        refine hagrees.congr hanswers ?_
        rw [fault_hear call path hquiet]
        exact chose_fault h call choice c
      · rw [List.filterMap_cons_none rfl, List.filterMap_nil, ite_self,
          List.append_nil] at hanswers
        refine hagrees.sends (e := e) hrun ?_ hone hanswers rfl
        unfold faultsOf
        rw [systemSeen_append, System.observed_append, observed_ran, if_pos rfl,
          List.filterMap_append]
        rfl
      · refine hagrees.answers hrun hcall hphase hc hanswers ?_
        simp only [List.map_cons, List.map_nil, List.foldl_cons, List.foldl_nil, hear,
          does, chose]
        split <;> rfl

omit hrun in
/-- Without a step of an actor nothing is answered, and no channel changes. -/
theorem Agrees.rests (hstep : h.step i = some (t, o))
    (hi : ∀ call choice, i ≠ .run call choice) (hfault : t.fault = h.fault)
    (hagrees : Agrees h seen p c) : Agrees t (seen ++ o) p c := by
  refine hagrees.congr ?_ (Or.inr (by rw [hfault]))
  unfold answersTo
  rw [systemSeen_append, System.observed_append, observed_of_rests hstep hi,
    List.append_nil]

omit hrun in
/-- A new child has sent no fault. -/
theorem Agrees.created (hwired : Wired h) (hstep : h.step i = some (t, o))
    (hc : h.system.creations c = .absent) : Agrees t seen p c := by
  have hclosed : t.fault c = .closed := by
    by_contra hopen
    obtain ⟨path, cfg, r, hrunning⟩ := hwired.running_of_open hstep (Or.inl hopen)
    rw [hc] at hrunning
    contradiction
  constructor
  · simp [hclosed]
  · simp [hclosed]

theorem agrees_of_execute (hc : h.CreatedBy p c) : Agrees h seen p c := by
  refine execute_history_of_run (G := fun _ _ => True)
    (P := fun h seen => ∀ p c, h.CreatedBy p c → Agrees h seen p c) ?_
    (fun _ _ hc => nomatch hc) (stepsMeet_true empty inputs) hrun p c hc
  intro before h seen i t o hrun hagrees _ hstep p c hc
  rcases createdBy_cases (step_transition hstep) hc with hold | ⟨habsent, -⟩
  · rcases step_acts hstep with ⟨call, choice, -, -, -, -, -, rfl, -⟩ | ⟨hi, hrests⟩
    · exact Agrees.run hrun hstep hold (hagrees p c hold)
    · exact (hagrees p c hold).rests hstep hi hrests.fault
  · exact .created (wired_of_execute hrun) hstep habsent

end Channel

/-- What the child and the two ends of the channel of its fault make of it. -/
structure FaultProtocol (h : Hierarchy M Ev) (seen : List (HierarchyObs M Ev))
    (p c : Nat) : Prop where
  /-- A child sends one fault in its life. -/
  once : (faultsOf c seen).length ≤ 1
  /-- `on_child_fault` of the parent is called with it, and returns once. -/
  told : faultsTold p c seen <+: faultsOf c seen
  answered : (answersTo p c seen).length ≤ (faultsTold p c seen).length
  others : ∀ x, x ≠ p → faultsTold x c seen = [] ∧ answersTo x c seen = []
  /-- The child takes the action that was returned, and can take it. -/
  takes : ∀ action, h.may c (.parentAction (some action)) = true →
    answersTo p c seen = [action]
  canTake : ∀ path cfg r action, h.system.creations c = .running path cfg r →
    r.phase = .awaitingAction → answersTo p c seen = [action] →
      h.may c (.parentAction (some action)) = true
  /-- It goes on without an action only if the parent has gone without one. -/
  loses : h.may c (.parentAction none) = true →
    h.system.channelOpen p = false ∧ answersTo p c seen = []

section Protocol

variable {inputs : List (HierarchyInput M Ev)}
  (hrun : execute step empty inputs = some (h, seen))

include hrun

/-- Another actor is not told of the fault of a child, and answers nothing. -/
theorem nothing_to_others (hc : h.CreatedBy p c) (hne : x ≠ p) :
    faultsTold x c seen = [] ∧ answersTo x c seen = [] := by
  have hother : h.isParent x c = false := by
    rw [Bool.eq_false_iff, Ne, isParent_iff]
    exact fun hx => hne (hx.unique hc)
  have htold := faultsTold_among hrun x c
  rw [hother, if_neg Bool.false_ne_true, List.prefix_nil] at htold
  exact ⟨htold, answersTo_of_faultsTold hrun htold⟩

/-- The action that waits in the channel is the one that was returned. -/
theorem takes_answer (hc : h.CreatedBy p c) {action : ChildAction}
    (hmay : h.may c (.parentAction (some action)) = true) :
    answersTo p c seen = [action] :=
  (agrees_of_execute hrun hc).answered action (beq_iff_eq.mp hmay)

/-- An action that was returned waits in the channel until the child takes it. -/
theorem can_take_answer (hc : h.CreatedBy p c) {path : ActorPath}
    {cfg : RunnerConfig} {r : Runner M Ev} {action : ChildAction}
    (hrunning : h.system.creations c = .running path cfg r)
    (hphase : r.phase = .awaitingAction) (hanswer : answersTo p c seen = [action]) :
    h.may c (.parentAction (some action)) = true := by
  have hagrees := agrees_of_execute hrun hc
  have hopen := ((wired_of_execute hrun).action c path cfg r hrunning).mp hphase
  cases hfault : h.fault c with
  | closed => exact absurd hfault hopen
  | waiting =>
      have hnone := hagrees.waiting hfault
      rw [hanswer] at hnone
      contradiction
  | answered action' =>
      have hsame := hagrees.answered action' hfault
      rw [hanswer] at hsame
      obtain rfl : action = action' := by simpa using hsame
      simp [may, hfault]

/-- A child whose channel is lost got no answer, and its parent has gone. -/
theorem loses_answer (hc : h.CreatedBy p c)
    (hmay : h.may c (.parentAction none) = true) :
    h.system.channelOpen p = false ∧ answersTo p c seen = [] := by
  have hagrees := agrees_of_execute hrun hc
  obtain ⟨hook, horigin⟩ := hc
  simp only [may, horigin, Bool.and_eq_true, beq_iff_eq, Bool.not_eq_true'] at hmay
  exact ⟨hmay.2, hagrees.waiting hmay.1⟩

/-- **The parent and the child agree on a fault.**  In every run of the hierarchy an
actor sends one fault at most; it is told to its creator alone, and once; the
creator answers it once at most; the child takes that action as soon as it was
returned, and goes on without one only when the creator has gone unanswering. -/
theorem faults_agree (hc : h.CreatedBy p c) : FaultProtocol h seen p c where
  once := faultsOf_length_le hrun c
  told := by
    have htold := faultsTold_among hrun p c
    rwa [if_pos (isParent_iff.mpr hc)] at htold
  answered := answersTo_length_le hrun p c
  others _ hne := nothing_to_others hrun hc hne
  takes _ hmay := takes_answer hrun hc hmay
  canTake _ _ _ _ hrunning hphase hanswer :=
    can_take_answer hrun hc hrunning hphase hanswer
  loses hmay := loses_answer hrun hc hmay

end Protocol

/-- A child fails, and its parent wants it to restart. -/
def asksRestart : List (HierarchyInput Unit Unit) :=
  emitsBoth ++ [.run 0 (.returns (.ok ())), .run 0 .takeChildError,
    .run 0 (.answers .restart)]

/-- `faults_agree` where the action waits for the child. -/
theorem asksRestart_agrees :
    ∃ h seen, execute step empty asksRestart = some (h, seen) ∧
      h.may 1 (.parentAction (some .restart)) = true ∧ FaultProtocol h seen 0 1 ∧
      faultsTold 0 1 seen = [.functional "child"] := by
  have hstate : (execute step empty asksRestart).any
      (fun p => decide (p.1.origin 1 = some ⟨0, .preStart⟩ ∧
        p.1.may 1 (.parentAction (some .restart)) = true ∧
        faultsTold 0 1 p.2 = [.functional "child"])) = true := by
    decide +kernel
  obtain ⟨⟨h, seen⟩, hrun, hstate⟩ := (Option.any_eq_true _ _).mp hstate
  obtain ⟨horigin, hmay, htold⟩ := of_decide_eq_true hstate
  exact ⟨h, seen, hrun, hmay, faults_agree hrun ⟨.preStart, horigin⟩, htold⟩

end Hierarchy

end Actor
end Rush
