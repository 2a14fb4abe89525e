import Rush.Actor.Handshakes
import Rush.Actor.CreatedChildren
import Rush.Actor.StopOrder

/-!
# The channels of a hierarchy

The actors form a forest: an actor is created by a hook of one that was created
before it.  Along its edges the channels agree with the runners at both ends.
Who waits has an open channel, an unanswered fault lies with the parent, and an
unanswered stop request with the child.
-/

namespace Rush
namespace Actor

open Foundation

variable {M Ev : Type}

/-- The call was made by `create_child`. -/
def Creation.IsChild : Creation M Ev → Prop
  | .checked _ cfg => cfg.hasParent = true
  | .running _ cfg _ => cfg.hasParent = true
  | _ => False

theorem Creation.isChild_of_core {x y : Creation M Ev} (h : x.core = y.core) :
    x.IsChild ↔ y.IsChild := by
  cases x <;> cases y <;> simp_all [core, IsChild]

namespace System

/-- Where a child comes from: a check, or it was one before. -/
theorem isChild_cases {s t : System M Ev} {i : SystemInput M Ev}
    {o : List (SystemObs M Ev)} (hstep : s.step i = some (t, o)) {x : Nat}
    (hx : (t.creations x).IsChild) : (s.creations x).IsChild ∨
      ∃ path cfg, i = .check x path cfg ∧ cfg.hasParent = true := by
  cases step_transition hstep with
  | refuses call path cfg hcall hexists =>
      by_cases heq : x = call
      · simp [heq, Creation.IsChild] at hx
      · exact Or.inl (by simpa [heq] using hx)
  | checks call path cfg hcall hfree =>
      by_cases heq : x = call
      · subst heq
        exact Or.inr ⟨path, cfg, rfl, by simpa [Creation.IsChild] using hx⟩
      · exact Or.inl (by simpa [heq] using hx)
  | inserts call path cfg hcall =>
      by_cases heq : x = call
      · subst heq
        left
        simpa [insert, hcall, Creation.IsChild] using hx
      · exact Or.inl (by simpa [insert, heq] using hx)
  | runs call input path cfg r r' os hcall hrun =>
      by_cases heq : x = call
      · subst heq
        left
        simpa [ran, hcall, Creation.IsChild] using hx
      · exact Or.inl (by simpa [ran, heq] using hx)

end System

namespace Hierarchy

variable {h t : Hierarchy M Ev} {i : HierarchyInput M Ev}
  {o seen : List (HierarchyObs M Ev)} {p c x : Nat}

/-- The actors form a forest, whose height is bounded by the number of calls. -/
structure Family (h : Hierarchy M Ev) : Prop where
  made : ∀ p c, h.CreatedBy p c → h.system.creations c ≠ .absent
  parent : ∀ p c, h.CreatedBy p c → ∃ path cfg r,
    h.system.creations p = .running path cfg r
  child : ∀ c, (h.system.creations c).IsChild → ∃ p, h.CreatedBy p c
  height : ∃ (rank : Nat → Nat) (n : Nat),
    (∀ c, h.system.creations c ≠ .absent → rank c < n) ∧
      ∀ p c, h.CreatedBy p c → rank p < rank c

theorem CreatedBy.unique (hp : h.CreatedBy p c) (hx : h.CreatedBy x c) : p = x := by
  obtain ⟨hook, hp⟩ := hp
  obtain ⟨hook', hx⟩ := hx
  simp_all

/-- A child is not its own parent. -/
theorem Family.irrefl (hfamily : Family h) : ¬ h.CreatedBy x x := by
  intro hx
  obtain ⟨rank, n, -, hrank⟩ := hfamily.height
  exact absurd (hrank x x hx) (Nat.lt_irrefl _)

/-- A new child is new to the system, and its parent runs a hook. -/
theorem createdBy_cases (ht : Transition h i t o) (hc : t.CreatedBy p c) :
    h.CreatedBy p c ∨ h.system.creations c = .absent ∧ ∃ name strategy path cfg r hook,
      i = .createChild p c name strategy ∧
      h.system.creations p = .running path cfg r ∧ r.phase = .inHook hook := by
  obtain ⟨hook, hc⟩ := hc
  rcases origin_cases ht with hsame |
    ⟨parent, child, name, strategy, path, cfg, r, hook', rfl, hparent, hphase, hnew⟩
  · exact Or.inl ⟨hook, hsame ▸ hc⟩
  · by_cases heq : c = child
    · subst heq
      obtain ⟨rfl, rfl⟩ : parent = p ∧ hook' = hook := by simpa [hnew] using hc
      right
      cases ht with
      | createsChild _ _ _ _ _ _ _ _ s os _ _ _ hsystem =>
          refine ⟨?_, name, strategy, path, cfg, r, hook', rfl, hparent, hphase⟩
          cases System.step_transition hsystem with
          | refuses _ _ _ habsent | checks _ _ _ habsent => exact habsent
    · exact Or.inl ⟨hook, by simpa [hnew, heq] using hc⟩

section Family

variable (hfamily : Family h) (hstep : h.step i = some (t, o))

include hfamily hstep

theorem Family.createdBy_step (hc : h.CreatedBy p c) : t.CreatedBy p c := by
  obtain ⟨hook, horigin⟩ := hc
  refine ⟨hook, ?_⟩
  rw [origin_of_made (step_transition hstep) (hfamily.made p c ⟨hook, horigin⟩)]
  exact horigin

theorem Family.made_step (hc : t.CreatedBy p c) :
    t.system.creations c ≠ .absent := by
  have ht := step_transition hstep
  rcases createdBy_cases ht hc with hold |
    ⟨-, name, strategy, path, cfg, r, hook, rfl, -, -⟩
  · exact made_of_step hstep (hfamily.made p c hold)
  · cases ht with
    | createsChild _ _ _ _ _ _ _ _ s os _ _ _ hsystem =>
        cases System.step_transition hsystem <;> simp

theorem Family.parent_step (hc : t.CreatedBy p c) :
    ∃ path cfg r, t.system.creations p = .running path cfg r := by
  have hrunning : ∃ path cfg r, h.system.creations p = .running path cfg r := by
    rcases createdBy_cases (step_transition hstep) hc with hold |
      ⟨-, -, -, path, cfg, r, -, -, hp, -⟩
    · exact hfamily.parent p c hold
    · exact ⟨path, cfg, r, hp⟩
  obtain ⟨path, cfg, r, hp⟩ := hrunning
  obtain ⟨r', hp'⟩ := running_of_step hstep hp
  exact ⟨path, cfg, r', hp'⟩

theorem Family.child_step (hc : (t.system.creations c).IsChild) :
    ∃ p, t.CreatedBy p c := by
  have hold : (h.system.creations c).IsChild → ∃ p, t.CreatedBy p c := by
    intro hchild
    obtain ⟨p, hp⟩ := hfamily.child c hchild
    exact ⟨p, hfamily.createdBy_step hstep hp⟩
  cases step_transition hstep with
  | createsRoot call name strategy s os hsystem =>
      rcases System.isChild_cases hsystem hc with hchild | ⟨path, cfg, heq, hparent⟩
      · exact hold hchild
      · cases heq
        contradiction
  | createsChild parent call name strategy path cfg r hook s os _ _ _ hsystem =>
      rcases System.isChild_cases hsystem hc with hchild | ⟨path', cfg', heq, -⟩
      · exact hold hchild
      · cases heq
        exact ⟨parent, hook, by simp⟩
  | inserts call s os hsystem =>
      rcases System.isChild_cases hsystem hc with hchild | ⟨path, cfg, heq, -⟩
      · exact hold hchild
      · contradiction
  | createFails parent call hcreating => exact hold hc
  | creates parent call path cfg r r' _ _ hparent hrun =>
      refine hold ?_
      by_cases heq : c = parent
      · subst heq
        simpa [System.ran, hparent, Creation.IsChild] using hc
      · simpa [System.ran, heq] using hc
  | arrives call arrival s harrivals =>
      exact hold ((Creation.isChild_of_core (harrivals.core c)).mp hc)
  | runs call choice path cfg r r' os hmay hcall hrun =>
      refine hold ?_
      have hran := (Creation.isChild_of_core ((arrivals_hear call path os
        { h.chose call choice with
          system := h.system.ran call path cfg r' os }).core c)).mp hc
      by_cases heq : c = call
      · subst heq
        simpa [System.ran, hcall, Creation.IsChild] using hran
      · simpa [System.ran, heq] using hran

theorem Family.height_step : ∃ (rank : Nat → Nat) (n : Nat),
    (∀ c, t.system.creations c ≠ .absent → rank c < n) ∧
      ∀ p c, t.CreatedBy p c → rank p < rank c := by
  classical
  obtain ⟨rank, n, hbound, hrank⟩ := hfamily.height
  -- a call that is made now comes after all others
  have hrunning : ∀ {p path cfg r}, h.system.creations p = .running path cfg r →
      h.system.creations p ≠ .absent := by
    intro p path cfg r hp habsent
    rw [hp] at habsent
    contradiction
  refine ⟨fun c => if h.system.creations c = .absent then n else rank c, n + 1, ?_, ?_⟩
  · intro c _
    simp only
    split
    case isTrue => omega
    case isFalse hmade =>
      have hlt := hbound c hmade
      omega
  · intro p c hc
    rcases createdBy_cases (step_transition hstep) hc with hold |
      ⟨habsent, -, -, path, cfg, r, -, -, hp, -⟩
    · obtain ⟨path, cfg, r, hp⟩ := hfamily.parent p c hold
      simp only
      rw [if_neg (hrunning hp), if_neg (hfamily.made p c hold)]
      exact hrank p c hold
    · simp only
      rw [if_neg (hrunning hp), if_pos habsent]
      exact hbound p (hrunning hp)

theorem Family.step : Family t where
  made _ _ hc := hfamily.made_step hstep hc
  parent _ _ hc := hfamily.parent_step hstep hc
  child _ hc := hfamily.child_step hstep hc
  height := hfamily.height_step hstep

end Family

theorem Family.empty : Family (empty : Hierarchy M Ev) where
  made _ _ hc := nomatch hc
  parent _ _ hc := nomatch hc
  child _ hc := hc.elim
  height := ⟨fun _ => 0, 0, fun _ hmade => absurd rfl hmade, fun _ _ hc => nomatch hc⟩

theorem family_of_execute {inputs : List (HierarchyInput M Ev)}
    (hrun : execute step .empty inputs = some (h, seen)) : Family h :=
  execute_invariant (fun _ _ _ _ hold hstep => hold.step hstep) .empty hrun

/-- The channels agree with the runners at both ends. -/
structure Wired (h : Hierarchy M Ev) : Prop where
  /-- A hook waits for the call it has made, and has the senders of its children. -/
  creating : ∀ x c, h.creating x = some c → h.CreatedBy x c ∧
    ∃ path cfg r hook, h.system.creations x = .running path cfg r ∧
      r.phase = .inHook hook
  senders : ∀ x c, c ∈ h.system.childSenders x → h.CreatedBy x c
  awaited : ∀ x c, h.awaited x = some c → h.CreatedBy x c
  /-- Who waits has an open channel. -/
  answer : ∀ x path cfg r request, h.system.creations x = .running path cfg r →
    r.phase = .awaitingChild request →
      ∃ c, h.awaited x = some c ∧ h.stop c ≠ .closed
  action : ∀ x path cfg r, h.system.creations x = .running path cfg r →
    (r.phase = .awaitingAction ↔ h.fault x ≠ .closed)
  open_running : ∀ c, h.fault c ≠ .closed ∨ h.stop c ≠ .closed →
    ∃ path cfg r, h.system.creations c = .running path cfg r
  /-- An unanswered fault lies with the parent, and no other one does. -/
  faults : ∀ p path cfg r e c, h.system.creations p = .running path cfg r →
    r.HasFault e c → h.CreatedBy p c
  fault : ∀ p c path cfg r, h.CreatedBy p c → h.fault c = .waiting →
    h.system.creations p = .running path cfg r → r.phase ≠ .ended →
      ∃ e, r.HasFault e c
  /-- An unanswered stop request lies with the child. -/
  request : ∀ c path cfg r, h.stop c = .waiting →
    h.system.creations c = .running path cfg r → r.phase ≠ .ended →
      stopRequest c ∈ r.openRequests

section Creating

/-- A hook that waits for a call it has made does nothing else. -/
theorem not_may_of_creating {cfg : RunnerConfig} {r r' : Runner M Ev}
    {os : List (Obs M Ev)} {choice : Choice Ev} {hook : Hook M}
    (hcreating : h.creating x = some c) (hphase : r.phase = .inHook hook)
    (hrun : Runner.step cfg r (.choice choice) = some (r', os)) :
    h.may x choice = false := by
  rcases Runner.choice_of_inHook hphase hrun with ⟨op, rfl⟩ | ⟨result, rfl⟩ |
    ⟨action, rfl⟩
  · cases op <;> simp [may, hcreating]
  · simp [may, hcreating]
  · simp [may, hcreating]

/-- The call that a hook waits for: it was made before, or it is made now. -/
theorem creating_origin (ht : Transition h i t o) (hx : t.creating x = some c) :
    h.creating x = some c ∧ i ≠ .created x ∨
      t.CreatedBy x c ∧ ∃ name strategy path cfg r hook,
        i = .createChild x c name strategy ∧
        t.system.creations x = .running path cfg r ∧ r.phase = .inHook hook := by
  cases ht with
  | createsChild parent call name strategy path cfg r hook s os hparent hphase
      hcreating hsystem =>
      by_cases heq : x = parent
      · subst heq
        obtain rfl : call = c := by simpa using hx
        refine Or.inr ⟨⟨hook, by simp⟩, name, strategy, path, cfg, r, hook, rfl, ?_,
          hphase⟩
        cases System.step_transition hsystem with
        | refuses _ _ _ habsent | checks _ _ _ habsent =>
            have hne : x ≠ call := by
              rintro rfl
              rw [hparent] at habsent
              contradiction
            simpa [hne] using hparent
      · exact Or.inl ⟨by simpa [heq] using hx, by simp⟩
  | createFails parent call hcreating | creates parent call _ _ _ _ hcreating =>
      by_cases heq : x = parent
      · simp [heq] at hx
      · exact Or.inl ⟨by simpa [heq] using hx, by simpa using Ne.symm heq⟩
  | runs call choice path cfg r r' os hmay hcall hrun =>
      refine Or.inl ⟨?_, by simp⟩
      rw [← ranTo_creating h call choice path cfg r' os]
      exact hx
  | _ => exact Or.inl ⟨hx, by simp⟩

end Creating

/-- A running actor: it has taken the step, or it has received something. -/
theorem Act.runner_cases {path₂ : ActorPath} {cfg₂ : RunnerConfig} {r₂ : Runner M Ev}
    {call : Nat} {path : ActorPath} {cfg : RunnerConfig} {r r' : Runner M Ev}
    {choice : Choice Ev} (hact : Act h call path cfg r r' choice t)
    (hx : t.system.creations x = .running path₂ cfg₂ r₂) :
    ∃ r₁, r₁.Grows r₂ ∧ (∀ e sender, r₂.HasFault e sender →
        r₁.HasFault e sender ∨ sender = call ∧ h.CreatedBy x call) ∧
      (x = call ∧ path₂ = path ∧ cfg₂ = cfg ∧ r₁ = r' ∨
        x ≠ call ∧ h.system.creations x = .running path₂ cfg₂ r₁) := by
  obtain ⟨r₁, hmoved, hgrows, hfaults⟩ := hact.runner hx
  refine ⟨r₁, hgrows, hfaults, ?_⟩
  by_cases heq : x = call
  · subst heq
    obtain ⟨rfl, rfl, rfl⟩ : path = path₂ ∧ cfg = cfg₂ ∧ r' = r₁ := by
      simpa [moved] using hmoved
    exact Or.inl ⟨rfl, rfl, rfl, rfl⟩
  · exact Or.inr ⟨heq, by simpa [moved, heq] using hmoved⟩

section Acts

variable {call : Nat} {path : ActorPath} {cfg : RunnerConfig} {r r' : Runner M Ev}
  {choice : Choice Ev}

/-- The channel of a fault is opened and closed by its own actor. -/
theorem Act.fault_of_ne (hact : Act h call path cfg r r' choice t) (hne : x ≠ call) :
    t.fault x ≠ .closed ↔ h.fault x ≠ .closed := by
  cases hact with
  | sendsFault e _ _ _ _ ht | takesAction action _ _ _ _ ht => simp [ht.fault, hne]
  | answers e sender action _ _ _ _ _ ht =>
      rw [ht.fault]
      split
      case isTrue hwaiting =>
        by_cases heq : x = sender
        · simp [heq, hwaiting]
        · simp [heq]
      case isFalse => rfl
  | alone _ _ _ _ _ ht | asks _ _ _ _ _ _ _ ht | hears _ _ _ _ _ _ _ ht
  | acknowledges _ _ _ _ _ _ ht | sendsError _ _ _ _ _ ht => rw [ht.fault]

/-- It is open exactly while the actor waits for its action. -/
theorem Act.fault_self (hact : Act h call path cfg r r' choice t)
    (hopen : r.phase = .awaitingAction ↔ h.fault call ≠ .closed) :
    r'.phase = .awaitingAction ↔ t.fault call ≠ .closed := by
  cases hact with
  | sendsFault e _ _ hphase' _ ht => simp [hphase', ht.fault]
  | takesAction action _ _ hphase' _ ht => simp [hphase', ht.fault]
  | answers e sender action _ hphase hphase' _ _ ht =>
      have hclosed : h.fault call = .closed := by simpa [hphase] using hopen
      rw [hphase', ht.fault]
      split
      case isTrue hwaiting =>
        have hne : call ≠ sender := by
          rintro rfl
          rw [hwaiting] at hclosed
          contradiction
        simp [hne, hclosed]
      case isFalse => simp [hclosed]
  | alone _ _ hwaits hwaits' _ ht =>
      have hbefore : r.phase ≠ .awaitingAction := fun hphase => hwaits (Or.inl hphase)
      have hafter : r'.phase ≠ .awaitingAction := fun hphase => hwaits' (Or.inl hphase)
      rw [ht.fault, ← hopen]
      simp [hbefore, hafter]
  | asks _ _ _ hphase hphase' _ _ ht | hears _ _ _ hphase hphase' _ _ ht
  | acknowledges _ _ hphase hphase' _ _ ht | sendsError _ _ hphase hphase' _ ht =>
      rw [ht.fault, ← hopen]
      simp [hphase, hphase']

/-- A stop request is sent to a child whose runner can take it. -/
theorem accepts_of_may {child : Nat}
    (hcall : h.system.creations call = .running path cfg r)
    (hchilds : r.childSenders = child :: r'.childSenders)
    (hmay : h.may call (.childSent : Choice Ev) = true) :
    ∃ path cfg r₁ r₂, h.system.creations child = .running path cfg r₁ ∧
      r₁.arrive (.stop (stopRequest child)) = some r₂ := by
  have hsenders : h.system.childSenders call = child :: r'.childSenders := by
    simp [System.childSenders, hcall, hchilds]
  simp only [may, hsenders] at hmay
  obtain ⟨⟨s, os⟩, hsystem⟩ := Option.isSome_iff_exists.mp hmay
  cases System.step_transition hsystem with
  | runs _ _ path' cfg' r₁ r₂ os hchild hrun =>
      obtain ⟨r₂, harrive, -⟩ := Option.map_eq_some_iff.mp hrun
      exact ⟨path', cfg', r₁, r₂, hchild, harrive⟩

theorem Act.hasFault_before {e : ActorError} {sender : Nat}
    (hact : Act h call path cfg r r' choice t) (hfault : r'.HasFault e sender) :
    r.HasFault e sender := by
  cases hact with
  | alone _ _ _ _ hkeeps | sendsError _ _ _ _ hkeeps | sendsFault _ _ _ _ hkeeps
  | takesAction _ _ _ _ hkeeps | asks _ _ _ _ _ _ hkeeps
  | hears _ _ _ _ _ hkeeps => exact (hkeeps.faults e sender).mp hfault
  | answers _ _ _ _ _ hphase' herrors | acknowledges _ _ _ hphase' _ herrors =>
      simp only [Runner.HasFault, hphase', herrors] at hfault
      exact Or.inl (by simpa using hfault)

/-- A fault is handled by the answer to it. -/
theorem Act.hasFault_after {e : ActorError} (hact : Act h call path cfg r r' choice t)
    (hwaiting : t.fault c = .waiting) (hfault : r.HasFault e c) :
    r'.HasFault e c := by
  cases hact with
  | alone _ _ _ _ hkeeps | sendsError _ _ _ _ hkeeps | sendsFault _ _ _ _ hkeeps
  | takesAction _ _ _ _ hkeeps | asks _ _ _ _ _ _ hkeeps
  | hears _ _ _ _ _ hkeeps => exact (hkeeps.faults e c).mpr hfault
  | answers e' sender action _ hphase hphase' herrors _ ht =>
      rcases hfault with hmem | hhook
      · exact Or.inl (herrors ▸ hmem)
      · obtain ⟨rfl, rfl⟩ : e' = e ∧ sender = c := by simpa [hphase] using hhook
        rw [ht.fault] at hwaiting
        split at hwaiting
        case isTrue => simp at hwaiting
        case isFalse hnot => exact absurd hwaiting hnot
  | acknowledges _ _ hphase _ _ herrors =>
      rcases hfault with hmem | hhook
      · exact Or.inl (herrors ▸ hmem)
      · simp [hphase] at hhook

/-- A fault that waits has waited before, or it has just been sent. -/
theorem Act.waiting_cases (hact : Act h call path cfg r r' choice t)
    (hwaiting : t.fault c = .waiting) : h.fault c = .waiting ∨ c = call ∧
      ∃ e, t.system.creations = h.sent c (.fault e c) (h.moved c path cfg r') := by
  cases hact with
  | sendsFault e _ _ _ _ ht =>
      by_cases heq : c = call
      · subst heq
        exact Or.inr ⟨rfl, e, ht.creations⟩
      · exact Or.inl (by simpa [ht.fault, heq] using hwaiting)
  | takesAction action _ _ _ _ ht =>
      by_cases heq : c = call
      · simp [ht.fault, heq] at hwaiting
      · exact Or.inl (by simpa [ht.fault, heq] using hwaiting)
  | answers e sender action _ _ _ _ _ ht =>
      rw [ht.fault] at hwaiting
      split at hwaiting
      · by_cases heq : c = sender
        · simp [heq] at hwaiting
        · exact Or.inl (by simpa [heq] using hwaiting)
      · exact Or.inl hwaiting
  | alone _ _ _ _ _ ht | asks _ _ _ _ _ _ _ ht | hears _ _ _ _ _ _ _ ht
  | acknowledges _ _ _ _ _ _ ht | sendsError _ _ _ _ _ ht =>
      exact Or.inl (ht.fault ▸ hwaiting)

/-- A stop request that waits has waited before, or it has just been sent. -/
theorem Act.asked_cases (hact : Act h call path cfg r r' choice t)
    (hwaiting : t.stop c = .waiting) : h.stop c = .waiting ∨
      choice = .childSent ∧ r.childSenders = c :: r'.childSenders ∧
        t.system.creations = Function.update (h.moved call path cfg r') c
          ((h.moved call path cfg r' c).receive (.stop (stopRequest c))) := by
  cases hact with
  | asks request child _ _ _ hchilds _ ht =>
      by_cases heq : c = child
      · subst heq
        exact Or.inr ⟨rfl, hchilds, ht.creations⟩
      · exact Or.inl (by simpa [ht.stop, heq] using hwaiting)
  | hears request child _ _ _ _ _ ht =>
      by_cases heq : c = child
      · simp [ht.stop, heq] at hwaiting
      · exact Or.inl (by simpa [ht.stop, heq] using hwaiting)
  | acknowledges request _ _ _ _ _ ht =>
      rw [ht.stop] at hwaiting
      split at hwaiting
      · by_cases heq : c = call
        · simp [heq] at hwaiting
        · exact Or.inl (by simpa [heq] using hwaiting)
      · exact Or.inl hwaiting
  | alone _ _ _ _ _ ht | takesAction _ _ _ _ _ ht | answers _ _ _ _ _ _ _ _ ht
  | sendsError _ _ _ _ _ ht | sendsFault _ _ _ _ _ ht =>
      exact Or.inl (ht.stop ▸ hwaiting)

/-- A stop request is dropped by its acknowledgement. -/
theorem Act.request_after (hact : Act h call path cfg r r' choice t)
    (hwaiting : t.stop call = .waiting)
    (hrequest : stopRequest call ∈ r.openRequests) :
    stopRequest call ∈ r'.openRequests := by
  cases hact with
  | alone _ _ _ _ hkeeps | sendsError _ _ _ _ hkeeps | sendsFault _ _ _ _ hkeeps
  | takesAction _ _ _ _ hkeeps | asks _ _ _ _ _ _ hkeeps
  | hears _ _ _ _ _ hkeeps => exact hkeeps.requests _ hrequest
  | answers _ _ _ _ hphase hphase' _ hstops =>
      simpa [Runner.openRequests, Runner.served, hphase, hphase', hstops] using hrequest
  | acknowledges request _ hphase hphase' hstops _ ht =>
      rw [ht.stop] at hwaiting
      split at hwaiting
      case isTrue => simp at hwaiting
      case isFalse hnot =>
        have hne : stopRequest call ≠ request := fun heq => hnot ⟨heq.symm, hwaiting⟩
        simpa [Runner.openRequests, Runner.served, hphase, hphase', hstops, hne]
          using hrequest

end Acts

section Step

variable (hwired : Wired h) (hfamily : Family h) (hstep : h.step i = some (t, o))

include hwired hfamily hstep

theorem Wired.creating_step (hx : t.creating x = some c) : t.CreatedBy x c ∧
    ∃ path cfg r hook, t.system.creations x = .running path cfg r ∧
      r.phase = .inHook hook := by
  have ht := step_transition hstep
  rcases creating_origin ht hx with ⟨hold, hcreated⟩ |
    ⟨hc, -, -, path, cfg, r, hook, -, hx', hphase⟩
  · obtain ⟨hc, path, cfg, r, hook, hrunning, hphase⟩ := hwired.creating x c hold
    refine ⟨hfamily.createdBy_step hstep hc, ?_⟩
    obtain ⟨r', hrunning'⟩ := running_of_step hstep hrunning
    refine ⟨path, cfg, r', hook, hrunning', ?_⟩
    rcases running_moves ht hrunning hrunning' with ⟨hcore, -⟩ |
      ⟨choice, r₁, os, hrun, -, rfl | ⟨child, rfl, -⟩⟩
    · exact (Runner.phase_of_core hcore).trans hphase
    · -- the hook is waiting
      cases ht with
      | runs _ _ _ _ _ _ _ hmay =>
          rw [not_may_of_creating hold hphase hrun] at hmay
          contradiction
    · exact absurd rfl hcreated
  · exact ⟨hc, path, cfg, r, hook, hx', hphase⟩

theorem Wired.senders_step (hc : c ∈ t.system.childSenders x) :
    t.CreatedBy x c := by
  refine hfamily.createdBy_step hstep ?_
  cases Hierarchy.senders_step (step_transition hstep) x with
  | keeps hsenders => exact hwired.senders x c (hsenders ▸ hc)
  | creates child path cfg r hook _ _ _ hcreating _ hsenders =>
      rw [hsenders] at hc
      rcases List.mem_cons.mp hc with rfl | hc
      · exact (hwired.creating x c hcreating).1
      · exact hwired.senders x c hc
  | asks child _ _ _ _ _ _ _ _ hsenders | closes child _ hsenders =>
      refine hwired.senders x c ?_
      rw [hsenders]
      exact List.mem_cons_of_mem child hc

theorem Wired.awaited_step (hc : t.awaited x = some c) : t.CreatedBy x c := by
  refine hfamily.createdBy_step hstep ?_
  rcases step_acts hstep with
    ⟨call, choice, path, cfg, r, r', os, rfl, hcall, -, -, hact⟩ | ⟨-, hrests⟩
  · cases hact with
    | asks request child _ _ _ hchilds _ ht =>
        rw [ht.awaited] at hc
        by_cases heq : x = call
        · subst heq
          obtain rfl : child = c := by simpa using hc
          refine hwired.senders x child ?_
          simp [System.childSenders, hcall, hchilds]
        · exact hwired.awaited x c (by simpa [heq] using hc)
    | hears request child _ _ _ _ hawaited ht =>
        rw [ht.awaited] at hc
        by_cases heq : x = call
        · simp [heq] at hc
        · exact hwired.awaited x c (by simpa [heq] using hc)
    | alone _ _ _ _ _ ht | takesAction _ _ _ _ _ ht | answers _ _ _ _ _ _ _ _ ht
    | acknowledges _ _ _ _ _ _ ht | sendsError _ _ _ _ _ ht
    | sendsFault _ _ _ _ _ ht => exact hwired.awaited x c (ht.awaited ▸ hc)
  · exact hwired.awaited x c (hrests.awaited ▸ hc)

omit hfamily in
theorem Wired.answer_step {path₂ : ActorPath} {cfg₂ : RunnerConfig}
    {r₂ : Runner M Ev} {request : StopRequest}
    (hx : t.system.creations x = .running path₂ cfg₂ r₂)
    (hphase : r₂.phase = .awaitingChild request) :
    ∃ c, t.awaited x = some c ∧ t.stop c ≠ .closed := by
  rcases step_acts hstep with
    ⟨call, choice, path, cfg, r, r', os, rfl, hcall, -, -, hact⟩ | ⟨-, hrests⟩
  · obtain ⟨r₁, hgrows, -, ⟨rfl, rfl, rfl, rfl⟩ | ⟨hne, hx₁⟩⟩ :=
      hact.runner_cases hx
    -- the actor has just asked a child
    · have hphase₁ : r₁.phase = .awaitingChild request := hgrows.phase ▸ hphase
      cases hact with
      | asks request' child _ _ _ _ _ ht =>
          exact ⟨child, by simp [ht.awaited], by simp [ht.stop]⟩
      | alone _ _ _ hwaits' => exact absurd (Or.inr ⟨request, hphase₁⟩) hwaits'
      | sendsError _ _ _ hphase' | sendsFault _ _ _ hphase'
      | takesAction _ _ _ hphase' | answers _ _ _ _ _ hphase'
      | hears _ _ _ _ hphase' | acknowledges _ _ _ hphase' => simp [hphase'] at hphase₁
    · have hphase₁ : r₁.phase = .awaitingChild request := hgrows.phase ▸ hphase
      obtain ⟨c, hc, hopen⟩ := hwired.answer x path₂ cfg₂ r₁ request hx₁ hphase₁
      cases hact with
      | asks request' child _ _ _ _ _ ht =>
          refine ⟨c, by simp [ht.awaited, hne, hc], ?_⟩
          by_cases heq : c = child
          · simp [ht.stop, heq]
          · simpa [ht.stop, heq] using hopen
      | hears request' child _ _ _ _ hawaited ht =>
          -- two actors do not wait for the same child
          have heq : c ≠ child := by
            rintro rfl
            exact hne ((hwired.awaited x c hc).unique (hwired.awaited call c hawaited))
          exact ⟨c, by simp [ht.awaited, hne, hc], by simpa [ht.stop, heq] using hopen⟩
      | acknowledges request' _ _ _ _ _ ht =>
          refine ⟨c, ht.awaited ▸ hc, ?_⟩
          rw [ht.stop]
          split
          · by_cases heq : c = call
            · simp [heq]
            · simpa [heq] using hopen
          · exact hopen
      | alone _ _ _ _ _ ht | takesAction _ _ _ _ _ ht | answers _ _ _ _ _ _ _ _ ht
      | sendsError _ _ _ _ _ ht | sendsFault _ _ _ _ _ ht =>
          exact ⟨c, ht.awaited ▸ hc, ht.stop ▸ hopen⟩
  · rcases hrests.runners x path₂ cfg₂ r₂ hx with ⟨-, rfl⟩ | ⟨r₁, hx₁, hgrows, -⟩
    · contradiction
    · obtain ⟨c, hc, hopen⟩ :=
        hwired.answer x path₂ cfg₂ r₁ request hx₁ (hgrows.phase ▸ hphase)
      exact ⟨c, hrests.awaited ▸ hc, hrests.stop ▸ hopen⟩

omit hfamily in
/-- A channel is open for a runner that was there before the step. -/
theorem Wired.running_of_open (hc : t.fault c ≠ .closed ∨ t.stop c ≠ .closed) :
    ∃ path cfg r, h.system.creations c = .running path cfg r := by
  rcases step_acts hstep with
    ⟨call, choice, path, cfg, r, r', os, rfl, hcall, hmay, -, hact⟩ | ⟨-, hrests⟩
  · by_cases heq : c = call
    · exact ⟨path, cfg, r, heq ▸ hcall⟩
    · rcases hc with hc | hc
      · exact hwired.open_running c (Or.inl ((hact.fault_of_ne heq).mp hc))
      · cases hact with
        | asks request child _ _ _ hchilds _ ht =>
            by_cases hchild : c = child
            · subst hchild
              obtain ⟨path', cfg', r₁, -, hc₁, -⟩ := accepts_of_may hcall hchilds hmay
              exact ⟨path', cfg', r₁, hc₁⟩
            · exact hwired.open_running c
                (Or.inr (by simpa [ht.stop, hchild] using hc))
        | hears request child _ _ _ _ _ ht =>
            by_cases hchild : c = child
            · simp [ht.stop, hchild] at hc
            · exact hwired.open_running c
                (Or.inr (by simpa [ht.stop, hchild] using hc))
        | acknowledges request _ _ _ _ _ ht =>
            refine hwired.open_running c (Or.inr ?_)
            rw [ht.stop] at hc
            split at hc
            · simpa [heq] using hc
            · exact hc
        | alone _ _ _ _ _ ht | takesAction _ _ _ _ _ ht
        | answers _ _ _ _ _ _ _ _ ht | sendsError _ _ _ _ _ ht
        | sendsFault _ _ _ _ _ ht =>
            exact hwired.open_running c (Or.inr (ht.stop ▸ hc))
  · exact hwired.open_running c (by rwa [hrests.fault, hrests.stop] at hc)

omit hfamily in
theorem Wired.open_step (hc : t.fault c ≠ .closed ∨ t.stop c ≠ .closed) :
    ∃ path cfg r, t.system.creations c = .running path cfg r := by
  obtain ⟨path, cfg, r, hc⟩ := hwired.running_of_open hstep hc
  obtain ⟨r', hc'⟩ := running_of_step hstep hc
  exact ⟨path, cfg, r', hc'⟩

omit hfamily in
theorem Wired.action_step {path₂ : ActorPath} {cfg₂ : RunnerConfig}
    {r₂ : Runner M Ev} (hx : t.system.creations x = .running path₂ cfg₂ r₂) :
    r₂.phase = .awaitingAction ↔ t.fault x ≠ .closed := by
  rcases step_acts hstep with
    ⟨call, choice, path, cfg, r, r', os, rfl, hcall, -, -, hact⟩ | ⟨-, hrests⟩
  · obtain ⟨r₁, hgrows, -, ⟨rfl, rfl, rfl, rfl⟩ | ⟨hne, hx₁⟩⟩ :=
      hact.runner_cases hx
    · rw [hgrows.phase]
      exact hact.fault_self (hwired.action x path₂ cfg₂ r hcall)
    · rw [hgrows.phase, hwired.action x path₂ cfg₂ r₁ hx₁]
      exact (hact.fault_of_ne hne).symm
  · rw [hrests.fault]
    rcases hrests.runners x path₂ cfg₂ r₂ hx with ⟨hchecked, rfl⟩ |
      ⟨r₁, hx₁, hgrows, -⟩
    · have hclosed : h.fault x = .closed := by
        by_contra hopen
        obtain ⟨path, cfg, r, hrunning⟩ := hwired.open_running x (Or.inl hopen)
        rw [hchecked] at hrunning
        contradiction
      simp [Runner.create, hclosed]
    · rw [hgrows.phase]
      exact hwired.action x path₂ cfg₂ r₁ hx₁

theorem Wired.faults_step {path₂ : ActorPath} {cfg₂ : RunnerConfig}
    {r₂ : Runner M Ev} {e : ActorError}
    (hx : t.system.creations p = .running path₂ cfg₂ r₂)
    (hfault : r₂.HasFault e c) : t.CreatedBy p c := by
  refine hfamily.createdBy_step hstep ?_
  rcases step_acts hstep with
    ⟨call, choice, path, cfg, r, r', os, rfl, hcall, -, -, hact⟩ | ⟨-, hrests⟩
  · obtain ⟨r₁, -, hfaults, hwho⟩ := hact.runner_cases hx
    rcases hfaults e c hfault with hold | ⟨rfl, hcreated⟩
    · rcases hwho with ⟨rfl, rfl, rfl, rfl⟩ | ⟨-, hx₁⟩
      · exact hwired.faults p path₂ cfg₂ r e c hcall (hact.hasFault_before hold)
      · exact hwired.faults p path₂ cfg₂ r₁ e c hx₁ hold
    · exact hcreated
  · rcases hrests.runners p path₂ cfg₂ r₂ hx with
      ⟨-, rfl⟩ | ⟨r₁, hx₁, -, hfaults⟩
    · simp [Runner.HasFault, Runner.create] at hfault
    · exact hwired.faults p path₂ cfg₂ r₁ e c hx₁ ((hfaults e c hfault).resolve_right id)

omit hwired hfamily in
/-- A runner that has not ended had not ended before. -/
theorem not_ended_before {path : ActorPath} {cfg : RunnerConfig} {r r' : Runner M Ev}
    (hx : h.system.creations x = .running path cfg r)
    (hx' : t.system.creations x = .running path cfg r') (hlive : r'.phase ≠ .ended) :
    r.phase ≠ .ended := by
  intro hended
  have hover : h.system.Over x := by simp [System.Over, hx, hended]
  have hafter := over_of_step hstep hover
  simp [System.Over, hx', hlive] at hafter

theorem Wired.fault_step {path₂ : ActorPath} {cfg₂ : RunnerConfig}
    {r₂ : Runner M Ev} (hcreated : t.CreatedBy p c) (hwaiting : t.fault c = .waiting)
    (hx : t.system.creations p = .running path₂ cfg₂ r₂) (hlive : r₂.phase ≠ .ended) :
    ∃ e, r₂.HasFault e c := by
  have hold : h.CreatedBy p c := by
    rcases createdBy_cases (step_transition hstep) hcreated with hold | ⟨habsent, -⟩
    · exact hold
    · have hopen : t.fault c ≠ .closed := by simp [hwaiting]
      obtain ⟨path, cfg, r, hrunning⟩ := hwired.running_of_open hstep (Or.inl hopen)
      rw [habsent] at hrunning
      contradiction
  rcases step_acts hstep with
    ⟨call, choice, path, cfg, r, r', os, rfl, hcall, -, -, hact⟩ | ⟨-, hrests⟩
  · rcases hact.waiting_cases hwaiting with hwaited | ⟨rfl, e, hcreations⟩
    · obtain ⟨r₁, hgrows, -, ⟨rfl, rfl, rfl, rfl⟩ | ⟨-, hx₁⟩⟩ :=
        hact.runner_cases hx
      · obtain ⟨e, hfault⟩ := hwired.fault p c path₂ cfg₂ r hold hwaited hcall
          (not_ended_before hstep hcall hx hlive)
        exact ⟨e, hgrows.hasFault (hact.hasFault_after hwaiting hfault)⟩
      · obtain ⟨e, hfault⟩ := hwired.fault p c path₂ cfg₂ r₁ hold hwaited hx₁
          (hgrows.phase ▸ hlive)
        exact ⟨e, hgrows.hasFault hfault⟩
    -- the fault has just been sent to the parent
    · obtain ⟨hook, horigin⟩ := hold
      have hne : p ≠ c := by
        rintro rfl
        exact hfamily.irrefl ⟨hook, horigin⟩
      obtain ⟨path', cfg', r₁, hp⟩ := hfamily.parent p c ⟨hook, horigin⟩
      have hreceived : t.system.creations p =
          (Creation.running path' cfg' r₁).receive (.childError (.fault e c)) := by
        rw [hcreations]
        simp [sent, horigin, moved, hne, hp]
      rw [hx] at hreceived
      obtain ⟨rfl, rfl, rfl⟩ : path₂ = path' ∧ cfg₂ = cfg' ∧
          r₂ = (r₁.arrive (.childError (.fault e c))).getD r₁ := by
        simpa [Creation.receive] using hreceived
      have hopen : r₁.phase.isEnded = false := by
        have hlive₁ := not_ended_before hstep hp hx hlive
        cases hphase : r₁.phase <;> simp_all [Phase.isEnded]
      refine ⟨e, Or.inl ?_⟩
      simp [Runner.arrive, hopen]
  · rcases hrests.runners p path₂ cfg₂ r₂ hx with
      ⟨hchecked, -⟩ | ⟨r₁, hx₁, hgrows, -⟩
    · obtain ⟨path, cfg, r, hp⟩ := hfamily.parent p c hold
      rw [hchecked] at hp
      contradiction
    · obtain ⟨e, hfault⟩ := hwired.fault p c path₂ cfg₂ r₁ hold
        (hrests.fault ▸ hwaiting) hx₁ (hgrows.phase ▸ hlive)
      exact ⟨e, hgrows.hasFault hfault⟩

theorem Wired.request_step {path₂ : ActorPath} {cfg₂ : RunnerConfig}
    {r₂ : Runner M Ev} (hwaiting : t.stop c = .waiting)
    (hx : t.system.creations c = .running path₂ cfg₂ r₂) (hlive : r₂.phase ≠ .ended) :
    stopRequest c ∈ r₂.openRequests := by
  rcases step_acts hstep with
    ⟨call, choice, path, cfg, r, r', os, rfl, hcall, hmay, -, hact⟩ | ⟨-, hrests⟩
  · rcases hact.asked_cases hwaiting with hwaited | ⟨rfl, hchilds, hcreations⟩
    · obtain ⟨r₁, hgrows, -, ⟨rfl, rfl, rfl, rfl⟩ | ⟨-, hx₁⟩⟩ :=
        hact.runner_cases hx
      · have hrequest := hwired.request c path₂ cfg₂ r hwaited hcall
          (not_ended_before hstep hcall hx hlive)
        exact hgrows.openRequests (hact.request_after hwaiting hrequest)
      · have hrequest := hwired.request c path₂ cfg₂ r₁ hwaited hx₁
          (hgrows.phase ▸ hlive)
        exact hgrows.openRequests hrequest
    -- the request has just been sent to the child
    · obtain ⟨path', cfg', r₁, r₂', hc, harrive⟩ := accepts_of_may hcall hchilds hmay
      have hsender : c ∈ h.system.childSenders call := by
        simp [System.childSenders, hcall, hchilds]
      have hne : c ≠ call := by
        rintro rfl
        exact hfamily.irrefl (hwired.senders c c hsender)
      rw [hcreations, Function.update_self] at hx
      obtain ⟨rfl, rfl, rfl⟩ : path' = path₂ ∧ cfg' = cfg₂ ∧ r₂' = r₂ := by
        simpa [moved, hne, hc, Creation.receive, harrive] using hx
      obtain ⟨rfl, -⟩ := Runner.arrive_stop harrive
      simp [Runner.openRequests]
  · rcases hrests.runners c path₂ cfg₂ r₂ hx with
      ⟨hchecked, -⟩ | ⟨r₁, hx₁, hgrows, -⟩
    · have hopen : t.stop c ≠ .closed := by simp [hwaiting]
      obtain ⟨path, cfg, r, hc⟩ := hwired.running_of_open hstep (Or.inr hopen)
      rw [hchecked] at hc
      contradiction
    · have hrequest := hwired.request c path₂ cfg₂ r₁ (hrests.stop ▸ hwaiting) hx₁
        (hgrows.phase ▸ hlive)
      exact hgrows.openRequests hrequest

theorem Wired.step : Wired t where
  creating _ _ hx := hwired.creating_step hfamily hstep hx
  senders _ _ hc := hwired.senders_step hfamily hstep hc
  awaited _ _ hc := hwired.awaited_step hfamily hstep hc
  answer _ _ _ _ _ hx hphase := hwired.answer_step hstep hx hphase
  action _ _ _ _ hx := hwired.action_step hstep hx
  open_running _ hc := hwired.open_step hstep hc
  faults _ _ _ _ _ _ hx hfault := hwired.faults_step hfamily hstep hx hfault
  fault _ _ _ _ _ hc hwaiting hx hlive :=
    hwired.fault_step hfamily hstep hc hwaiting hx hlive
  request _ _ _ _ hwaiting hx hlive :=
    hwired.request_step hfamily hstep hwaiting hx hlive

end Step

theorem Wired.empty : Wired (empty : Hierarchy M Ev) where
  creating _ _ hx := nomatch hx
  senders _ _ hc := nomatch hc
  awaited _ _ hc := nomatch hc
  answer _ _ _ _ _ hx := nomatch hx
  action _ _ _ _ hx := nomatch hx
  open_running _ hc := hc.elim (fun hopen => absurd rfl hopen)
    fun hopen => absurd rfl hopen
  faults _ _ _ _ _ _ hx := nomatch hx
  fault _ _ _ _ _ hc := nomatch hc
  request _ _ _ _ hwaiting := nomatch hwaiting

/-- In every run the channels agree with the runners. -/
theorem wired_of_execute {inputs : List (HierarchyInput M Ev)}
    (hrun : execute step .empty inputs = some (h, seen)) : Wired h := by
  refine (execute_invariant (I := fun h => Family h ∧ Wired h) ?_
    ⟨.empty, .empty⟩ hrun).2
  rintro h i t o ⟨hfamily, hwired⟩ hstep
  exact ⟨hfamily.step hstep, hwired.step hfamily hstep⟩

end Hierarchy

end Actor
end Rush
