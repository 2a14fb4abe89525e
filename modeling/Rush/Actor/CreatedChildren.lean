import Rush.Actor.Orphans

/-!
# Who has created whom, by path

`create_child` divides the path of the creator by the name, and `children`,
`parent` and `get_child` go by paths.  A name is split at `/`, so the parent of
the new path is the path of the creator if and only if the name has exactly one
segment.  In a run with such names, whose insertions find nothing of another
actor below or above their path, the paths say who has created whom.
-/

namespace Rush
namespace Actor

open Foundation

variable {M Ev : Type}

namespace ActorPath

/-- Only a name with one segment gives a child of the path. -/
theorem parent_div_iff {path : ActorPath} (h : path.segments ≠ []) (name : Str) :
    (path.div name).parent = path ↔ (tokens name).length = 1 := by
  have hpos : 0 < path.segments.length := List.length_pos_iff.mpr h
  have hlength : (path.div name).segments.length =
      path.segments.length + (tokens name).length := List.length_append
  unfold parent
  constructor
  · intro hparent
    split at hparent
    · have hsegments := congrArg (fun p => p.segments.length) hparent
      simp only [List.length_take] at hsegments
      omega
    · exact absurd (congrArg ActorPath.segments hparent).symm h
  · intro hone
    rw [if_pos (by omega), hlength, hone]
    simp [div]

theorem parent_ne_self {path : ActorPath} (h : path.segments ≠ []) :
    path.parent ≠ path := by
  have hpos : 0 < path.segments.length := List.length_pos_iff.mpr h
  unfold parent
  intro hself
  split at hself
  · have hsegments := congrArg (fun p => p.segments.length) hself
    simp only [List.length_take] at hsegments
    omega
  · exact h (congrArg ActorPath.segments hself).symm

end ActorPath

namespace System

/-- `SystemRef::get_actor`. -/
def getActor (s : System M Ev) (path : ActorPath) : Option Nat := s.actors path

/-- `SystemRef::children` of a path lists the actor. -/
def children (s : System M Ev) (path actor : ActorPath) : Bool :=
  (s.actors actor).isSome && actor.isChildOf path

/-- `ActorContext::parent` of an actor at the path. -/
def parentOf (s : System M Ev) (path : ActorPath) : Option Nat :=
  s.getActor path.parent

theorem children_iff {s : System M Ev} {path actor : ActorPath} :
    s.children path actor = true ↔
      (∃ call, s.actors actor = some call) ∧ actor.parent = path := by
  simp [children, ActorPath.isChildOf, Option.isSome_iff_exists]

end System

/-- The path of a call that was not refused. -/
def Creation.At (path : ActorPath) : Creation M Ev → Prop
  | .checked other _ => other = path
  | .running other _ _ => other = path
  | _ => False

theorem Creation.at_of_core {x y : Creation M Ev} (h : x.core = y.core)
    {path : ActorPath} : x.At path ↔ y.At path := by
  cases x <;> cases y <;> simp_all [core, At]

namespace System

variable {s t : System M Ev} {i : SystemInput M Ev} {o : List (SystemObs M Ev)}
  {call : Nat} {path : ActorPath}

/-- A call has its path from its check on. -/
theorem at_of_step (hstep : s.step i = some (t, o))
    (hat : (t.creations call).At path) :
    (s.creations call).At path ∨
      s.creations call = .absent ∧ ∃ cfg, i = .check call path cfg := by
  cases step_transition hstep with
  | refuses id other cfg hid =>
      by_cases heq : call = id
      · simp [heq, Creation.At] at hat
      · exact Or.inl (by simpa [heq] using hat)
  | checks id other cfg hid =>
      by_cases heq : call = id
      · subst heq
        obtain rfl : other = path := by simpa [Creation.At] using hat
        exact Or.inr ⟨hid, cfg, rfl⟩
      · exact Or.inl (by simpa [heq] using hat)
  | inserts id other cfg hid =>
      by_cases heq : call = id
      · subst heq
        exact Or.inl (by simpa [hid, insert, Creation.At] using hat)
      · exact Or.inl (by simpa [insert, heq] using hat)
  | runs id input other cfg r r' os hid hrun =>
      by_cases heq : call = id
      · subst heq
        exact Or.inl (by simpa [hid, ran, Creation.At] using hat)
      · exact Or.inl (by simpa [ran, heq] using hat)

theorem at_ran {r r' : Runner M Ev} {id : Nat} {other : ActorPath}
    {cfg : RunnerConfig} {os : List (Obs M Ev)}
    (hid : s.creations id = .running other cfg r) :
    ((s.ran id other cfg r' os).creations call).At path ↔
      (s.creations call).At path := by
  by_cases heq : call = id
  · subst heq
    simp [ran, hid, Creation.At]
  · simp [ran, heq]

end System

namespace Hierarchy

variable {h t : Hierarchy M Ev} {i : HierarchyInput M Ev}
  {o seen : List (HierarchyObs M Ev)} {call : Nat} {path : ActorPath}

/-- What a step does to the entry of a path. -/
theorem actors_of_step (ht : Transition h i t o) (path : ActorPath) :
    t.system.actors path = h.system.actors path ∨
      t.system.actors path = none ∨
      ∃ call cfg, i = .insert call ∧
        h.system.creations call = .checked path cfg ∧
        t.system.actors path = some call := by
  cases ht with
  | createsRoot call name strategy s os hsystem =>
      cases System.step_transition hsystem <;> exact Or.inl rfl
  | createsChild parent call name strategy _ _ _ _ s os _ _ _ hsystem =>
      cases System.step_transition hsystem <;> exact Or.inl rfl
  | inserts call s os hsystem =>
      cases System.step_transition hsystem with
      | inserts _ other cfg hcall =>
          by_cases heq : path = other
          · subst heq
            exact Or.inr (Or.inr ⟨call, cfg, rfl, hcall, by simp [System.insert]⟩)
          · exact Or.inl (by simp [System.insert, heq])
  | createFails => exact Or.inl rfl
  | creates => exact Or.inl rfl
  | arrives call arrival s harrivals => exact Or.inl (by rw [harrivals.actors])
  | runs call choice other cfg r r' os hmay hcall hrun =>
      have harrivals := arrivals_hear call other os
        { h.chose call choice with system := h.system.ran call other cfg r' os }
      rw [harrivals.actors]
      simp only [System.ran]
      split
      · by_cases heq : path = other
        · exact Or.inr (Or.inl (by simp [heq]))
        · exact Or.inl (by simp [heq])
      · exact Or.inl rfl

/-- The path of a call is given by the check. -/
theorem at_cases (ht : Transition h i t o)
    (hat : (t.system.creations call).At path) :
    (h.system.creations call).At path ∨
      h.system.creations call = .absent ∧
        ((∃ name strategy, i = .createRoot call name strategy ∧
            path = (ActorPath.ofText ['/', 'u', 's', 'e', 'r']).div name ∧
            t.origin = h.origin) ∨
          ∃ parent name strategy p cfg r hook,
            i = .createChild parent call name strategy ∧
            h.system.creations parent = .running p cfg r ∧ path = p.div name ∧
            t.origin = Function.update h.origin call (some ⟨parent, hook⟩)) := by
  cases ht with
  | createsRoot id name strategy s os hsystem =>
      rcases System.at_of_step hsystem hat with hold | ⟨habsent, cfg, heq⟩
      · exact Or.inl hold
      · cases heq
        exact Or.inr ⟨habsent, Or.inl ⟨name, strategy, rfl, rfl, rfl⟩⟩
  | createsChild parent id name strategy p cfg r hook s os hparent _ _ hsystem =>
      rcases System.at_of_step hsystem hat with hold | ⟨habsent, cfg', heq⟩
      · exact Or.inl hold
      · cases heq
        exact Or.inr ⟨habsent, Or.inr
          ⟨parent, name, strategy, p, cfg, r, hook, rfl, hparent, rfl, rfl⟩⟩
  | inserts id s os hsystem =>
      rcases System.at_of_step hsystem hat with hold | ⟨-, cfg, hno⟩
      · exact Or.inl hold
      · contradiction
  | createFails => exact Or.inl hat
  | creates parent id other cfg r r' _ _ hparent =>
      exact Or.inl ((System.at_ran hparent).mp hat)
  | arrives id arrival s harrivals =>
      exact Or.inl ((Creation.at_of_core (harrivals.core call)).mp hat)
  | runs id choice other cfg r r' os hmay hcall hrun =>
      have harrivals := arrivals_hear id other os
        { h.chose id choice with system := h.system.ran id other cfg r' os }
      exact Or.inl ((System.at_ran hcall).mp
        ((Creation.at_of_core (harrivals.core call)).mp hat))

/-- Each name has exactly one segment. -/
def OneSegment : HierarchyInput M Ev → Prop
  | .createRoot _ name _ => (ActorPath.tokens name).length = 1
  | .createChild _ _ name _ => (ActorPath.tokens name).length = 1
  | _ => True

/-- An insertion finds no actor registered below its path, and above it none but
the creator of the call. -/
def InsertsBelowCreator (h : Hierarchy M Ev) : HierarchyInput M Ev → Prop
  | .insert call => ∀ path cfg, h.system.creations call = .checked path cfg →
      (∀ actor, h.system.children path actor = false) ∧
        ∀ origin above, h.origin call = some origin →
          h.system.getActor path.parent = some above → above = origin.parent
  | _ => True

/-- What a run has to keep to. -/
def KeepsHierarchy (h : Hierarchy M Ev) (i : HierarchyInput M Ev) : Prop :=
  OneSegment i ∧ h.InsertsBelowCreator i

/-- The paths of the actors say who has created whom. -/
structure ReflectsCreation (h : Hierarchy M Ev) : Prop where
  /-- An actor that was created by another one is its child by path: it is listed
  as long as it is registered, and it looks up the path of its creator. -/
  created : ∀ c path cfg r origin, h.system.creations c = .running path cfg r →
    h.origin c = some origin →
      ∃ p cfg' r', h.system.creations origin.parent = .running p cfg' r' ∧
        path.parent = p ∧ h.system.parentOf path = h.system.getActor p ∧
        (h.system.getActor path = some c → h.system.children p path = true)
  /-- What is listed for the path of an actor is registered, has not left the
  registry, and was created by an actor at the path: by the one that is
  registered there, if there is one. -/
  listed : ∀ x p cfg r, h.system.creations x = .running p cfg r →
    ∀ actor, h.system.children p actor = true →
      ∃ c cfg' r' origin, h.system.getActor actor = some c ∧
        h.system.creations c = .running actor cfg' r' ∧ ¬ r'.LeftRegistry ∧
        h.origin c = some origin ∧
        (∃ cfg'' r'', h.system.creations origin.parent = .running p cfg'' r'') ∧
        ∀ above, h.system.getActor p = some above → above = origin.parent

/-- The path of a call: a root actor is below `/user`, and a child is below the
path of its creator. -/
def Placed (h : Hierarchy M Ev) (call : Nat) (path : ActorPath) : Prop :=
  match h.origin call with
  | none => path.segments.length = 2
  | some origin => 3 ≤ path.segments.length ∧
      ∃ cfg r, h.system.creations origin.parent = .running path.parent cfg r

/-- What the steps keep. -/
structure PathLog (h : Hierarchy M Ev) : Prop where
  made : ∀ call, h.origin call ≠ none → h.system.creations call ≠ .absent
  placed : ∀ call path, (h.system.creations call).At path → h.Placed call path
  creator : ∀ actor c origin above, h.system.getActor actor = some c →
    h.origin c = some origin → h.system.getActor actor.parent = some above →
      above = origin.parent

theorem Placed.two_le (hplaced : h.Placed call path) :
    2 ≤ path.segments.length := by
  unfold Placed at hplaced
  split at hplaced
  · omega
  · omega

theorem Placed.segments_ne_nil (hplaced : h.Placed call path) :
    path.segments ≠ [] := by
  intro hnil
  have htwo := hplaced.two_le
  simp [hnil] at htwo

/-- A call keeps its place. -/
theorem Placed.step (hplaced : h.Placed call path)
    (hstep : h.step i = some (t, o)) (horigin : t.origin call = h.origin call) :
    t.Placed call path := by
  unfold Placed at *
  rw [horigin]
  split at hplaced
  · exact hplaced
  · obtain ⟨hlength, cfg, r, hparent⟩ := hplaced
    obtain ⟨r', hparent'⟩ := running_of_step hstep hparent
    exact ⟨hlength, cfg, r', hparent'⟩

/-- A call that was made stays so, and keeps its origin. -/
theorem made_of_step (hstep : h.step i = some (t, o))
    (hmade : h.system.creations call ≠ .absent) :
    t.system.creations call ≠ .absent := by
  refine system_keeps (I := fun s => s.creations call ≠ .absent) ?_ hstep hmade
  intro s i t o hold hs
  rcases System.creation_cases hs call with hsame | habsent |
    ⟨path, cfg, -, hrunning⟩ | ⟨path, cfg, r, r', os, -, hrunning, -⟩
  · rwa [hsame]
  · exact absurd habsent hold
  · simp [hrunning]
  · simp [hrunning]

theorem origin_of_made (ht : Transition h i t o)
    (hmade : h.system.creations call ≠ .absent) :
    t.origin call = h.origin call := by
  rcases origin_cases ht with hsame |
    ⟨parent, child, name, strategy, p, cfg, r, hook, rfl, -, -, hnew⟩
  · rw [hsame]
  · have hne : call ≠ child := by
      rintro rfl
      cases ht with
      | createsChild _ _ _ _ _ _ _ _ s os _ _ _ hsystem =>
          cases System.step_transition hsystem with
          | refuses _ _ _ habsent | checks _ _ _ habsent => exact hmade habsent
    rw [hnew, Function.update_of_ne hne]

theorem PathLog.made_step (hlog : PathLog h) (hstep : h.step i = some (t, o))
    (horigin : t.origin call ≠ none) : t.system.creations call ≠ .absent := by
  have ht := step_transition hstep
  rcases origin_cases ht with hsame |
    ⟨parent, child, name, strategy, p, cfg, r, hook, rfl, -, -, hnew⟩
  · exact made_of_step hstep (hlog.made call (hsame ▸ horigin))
  · by_cases heq : call = child
    · subst heq
      cases ht with
      | createsChild _ _ _ _ _ _ _ _ s os _ _ _ hsystem =>
          cases System.step_transition hsystem <;> simp
    · rw [hnew, Function.update_of_ne heq] at horigin
      exact made_of_step hstep (hlog.made call horigin)

/-- A call that is checked gets its place. -/
theorem PathLog.placed_step (hlog : PathLog h) (hguard : OneSegment i)
    (hstep : h.step i = some (t, o)) (hat : (t.system.creations call).At path) :
    t.Placed call path := by
  have ht := step_transition hstep
  rcases at_cases ht hat with hold | ⟨habsent,
    ⟨name, strategy, rfl, rfl, hsame⟩ |
      ⟨parent, name, strategy, p, cfg, r, hook, rfl, hparent, rfl, hnew⟩⟩
  · have hmade : h.system.creations call ≠ .absent := by
      intro habsent
      simp [habsent, Creation.At] at hold
    exact (hlog.placed call path hold).step hstep (origin_of_made ht hmade)
  · have hnone : t.origin call = none := by
      rw [hsame]
      by_contra horigin
      exact hlog.made call horigin habsent
    have hone : (ActorPath.tokens name).length = 1 := hguard
    have huser : (ActorPath.ofText ['/', 'u', 's', 'e', 'r']).segments.length = 1 := by
      decide
    simp [Placed, hnone, ActorPath.div, hone, huser]
  · have hone : (ActorPath.tokens name).length = 1 := hguard
    have hcreator := hlog.placed parent p (by simp [hparent, Creation.At])
    have htwo := hcreator.two_le
    have habove := (ActorPath.parent_div_iff hcreator.segments_ne_nil name).mpr hone
    obtain ⟨r', hparent'⟩ := running_of_step hstep hparent
    have hlength : (p.div name).segments.length = p.segments.length + 1 := by
      simp [ActorPath.div, hone]
    simp only [Placed, hnew, Function.update_self, habove]
    exact ⟨by omega, cfg, r', hparent'⟩

/-- An entry belongs to a call at the path. -/
theorem at_of_entry {inputs : List (HierarchyInput M Ev)}
    (hrun : execute step empty inputs = some (h, seen))
    (hentry : h.system.getActor path = some call) :
    ∃ cfg r, h.system.creations call = .running path cfg r ∧ ¬ r.LeftRegistry := by
  obtain ⟨is, hsystem⟩ := system_of_execute hrun
  obtain ⟨⟨cfg, r, hcall⟩, -⟩ :=
    System.entriesOwned_of_execute hsystem path call hentry
  refine ⟨cfg, r, hcall, fun hleft => ?_⟩
  obtain ⟨js, hexec⟩ := System.runner_of_execute hsystem hcall
  exact System.not_registered_of_removed hsystem (hleft.removed hexec) path hentry

theorem PathLog.creator_step {inputs : List (HierarchyInput M Ev)}
    (hrun : execute step empty inputs = some (h, seen)) (hlog : PathLog h)
    (hguard : h.InsertsBelowCreator i) (hstep : h.step i = some (t, o))
    {actor : ActorPath} {c above : Nat} {origin : Origin M}
    (hc : t.system.getActor actor = some c) (horigin : t.origin c = some origin)
    (habove : t.system.getActor actor.parent = some above) :
    above = origin.parent := by
  have ht := step_transition hstep
  rcases actors_of_step ht actor with hsame | hnone |
    ⟨call, cfg, rfl, hchecked, hnew⟩
  · have hold : h.system.getActor actor = some c := hsame.symm.trans hc
    obtain ⟨cfg, r, hcall, -⟩ := at_of_entry hrun hold
    rw [origin_of_made ht (by simp [hcall])] at horigin
    rcases actors_of_step ht actor.parent with hsame' | hnone' |
      ⟨call, cfg', rfl, hchecked, -⟩
    · exact hlog.creator actor c origin above hold horigin (hsame'.symm.trans habove)
    · exact absurd (hnone'.symm.trans habove) (by simp)
    · -- the insertion would find the actor below its path
      have hbelow := (hguard actor.parent cfg' hchecked).1 actor
      rw [System.children_iff.mpr ⟨⟨c, hold⟩, rfl⟩] at hbelow
      contradiction
  · exact absurd (hnone.symm.trans hc) (by simp)
  · obtain rfl : call = c := Option.some.inj (hnew.symm.trans hc)
    rw [origin_of_made ht (by simp [hchecked])] at horigin
    have hplaced := hlog.placed call actor (by simp [hchecked, Creation.At])
    rcases actors_of_step ht actor.parent with hsame' | hnone' |
      ⟨call', cfg', heq, hchecked', -⟩
    · exact (hguard actor cfg hchecked).2 origin above horigin (hsame'.symm.trans habove)
    · exact absurd (hnone'.symm.trans habove) (by simp)
    · -- a path is not its own parent
      cases heq
      have hself := (Creation.checked.inj (hchecked.symm.trans hchecked')).1
      exact absurd hself.symm (ActorPath.parent_ne_self hplaced.segments_ne_nil)

theorem pathLog_of_execute {inputs : List (HierarchyInput M Ev)}
    (hmeet : StepsMeet step KeepsHierarchy empty inputs)
    (hrun : execute step empty inputs = some (h, seen)) : PathLog h := by
  refine execute_history_of_run (P := fun h _ => PathLog h) ?_ ?_ hmeet hrun
  · intro before s seen i t o hbefore hlog hguard hstep
    exact
      { made := fun _ horigin => hlog.made_step hstep horigin
        placed := fun _ _ hat => hlog.placed_step hguard.1 hstep hat
        creator := fun _ _ _ _ hc horigin habove =>
          hlog.creator_step hbefore hguard.2 hstep hc horigin habove }
  · exact
      { made := fun _ horigin => absurd rfl horigin
        placed := fun _ _ hat => hat.elim
        creator := fun _ _ _ _ hc => nomatch hc }

/-- A path with two segments is not below the path of an actor. -/
theorem Placed.not_root {p : ActorPath} {x : Nat} (hp : h.Placed x p)
    (hplaced : h.Placed call path) (habove : path.parent = p) :
    h.origin call ≠ none := by
  intro hnone
  have htwo := hp.two_le
  have hlength : path.segments.length = 2 := by
    simpa [Placed, hnone] using hplaced
  rw [← habove] at htwo
  simp [ActorPath.parent, hlength] at htwo

/-- **The paths reflect the creations.**  In every run whose names have exactly
one segment and whose insertions find no actor below their path, and above it
none but the creator: an actor created by `create_child` is a child of its
creator by path, and what `children` lists for the path of an actor was created
there by `create_child` and is still registered. -/
theorem paths_reflect_creation {inputs : List (HierarchyInput M Ev)}
    (hrun : execute step empty inputs = some (h, seen))
    (hmeet : StepsMeet step KeepsHierarchy empty inputs) :
    h.ReflectsCreation := by
  have hlog := pathLog_of_execute hmeet hrun
  constructor
  · intro c path cfg r origin hc horigin
    have hplaced := hlog.placed c path (by simp [hc, Creation.At])
    simp only [Placed, horigin] at hplaced
    obtain ⟨-, cfg', r', hparent⟩ := hplaced
    exact ⟨path.parent, cfg', r', hparent, rfl, rfl, fun hentry =>
      System.children_iff.mpr ⟨⟨c, hentry⟩, rfl⟩⟩
  · intro x p cfg r hx actor hlisted
    obtain ⟨⟨c, hentry⟩, habove⟩ := System.children_iff.mp hlisted
    obtain ⟨cfg', r', hc, hstays⟩ := at_of_entry hrun hentry
    have hp := hlog.placed x p (by simp [hx, Creation.At])
    have hplaced := hlog.placed c actor (by simp [hc, Creation.At])
    obtain ⟨origin, horigin⟩ :=
      Option.ne_none_iff_exists'.mp (hp.not_root hplaced habove)
    simp only [Placed, horigin, habove] at hplaced
    refine ⟨c, cfg', r', origin, hentry, hc, hstays, horigin, hplaced.2, ?_⟩
    intro above hregistered
    exact hlog.creator actor c origin above hentry horigin
      (habove.symm ▸ hregistered)

/-- A root actor is created, and its `pre_start` creates a child. -/
def createsNamed (name : Str) : List (HierarchyInput Unit Unit) :=
  [.createRoot 0 ['a'] .stop, .insert 0, .run 0 .proceed,
    .createChild 0 1 name .stop, .insert 1]

theorem createsNamed_keepsHierarchy :
    StepsMeet step KeepsHierarchy empty (createsNamed ['c']) := by
  have hroot : (ActorPath.tokens ['a']).length = 1 := by decide
  have hchild : (ActorPath.tokens ['c']).length = 1 := by decide
  refine (stepsMeet_cons rfl).mpr ⟨⟨hroot, trivial⟩, ?_⟩
  refine (stepsMeet_cons rfl).mpr ⟨⟨trivial, ?_⟩, ?_⟩
  · exact fun path cfg _ => ⟨fun actor => rfl, fun origin above horigin =>
      nomatch horigin⟩
  refine (stepsMeet_cons rfl).mpr ⟨⟨trivial, trivial⟩, ?_⟩
  refine (stepsMeet_cons rfl).mpr ⟨⟨hchild, trivial⟩, ?_⟩
  refine ⟨⟨trivial, fun path cfg hchecked => ?_⟩, fun _ _ _ => trivial⟩
  cases hchecked
  refine ⟨fun actor => ?_, fun origin above horigin habove => ?_⟩
  -- the only entry is that of the root actor
  · by_cases heq : actor = System.userPath
    · subst heq
      rfl
    · have hnone : Function.update (fun _ => none) System.userPath (some 0) actor =
          none := Function.update_of_ne heq _ _
      exact congrArg (fun entry => entry.isSome && actor.isChildOf childPath) hnone
  · cases horigin
    cases habove
    rfl

/-- `paths_reflect_creation` for a child with a plain name. -/
theorem createsNamed_reflects_creation :
    ∃ h seen, execute step empty (createsNamed ['c']) = some (h, seen) ∧
      h.system.children System.userPath childPath = true ∧ h.ReflectsCreation :=
  ⟨_, _, rfl, rfl, paths_reflect_creation rfl createsNamed_keepsHierarchy⟩

/-- The path of a child that was created with the name `b/c`. -/
def deepPath : ActorPath := ⟨[['u', 's', 'e', 'r'], ['a'], ['b'], ['c']]⟩

/-- A name with a slash: the child is registered and its parent is running, but
the parent does not list it, and the child does not find the parent. -/
theorem deep_child_not_listed :
    ∃ h seen, execute step empty (createsNamed ['b', '/', 'c']) = some (h, seen) ∧
      h.origin 1 = some ⟨0, .preStart⟩ ∧
      h.system.getActor System.userPath = some 0 ∧
      h.system.getActor deepPath = some 1 ∧
      h.system.children System.userPath deepPath = false ∧
      h.system.parentOf deepPath = none ∧ ¬ h.ReflectsCreation := by
  refine ⟨_, _, rfl, rfl, rfl, rfl, rfl, rfl, fun hreflects => ?_⟩
  obtain ⟨p, cfg', r', hparent, habove, -⟩ :=
    hreflects.created 1 deepPath _ _ _ rfl rfl
  cases hparent
  exact absurd habove (by decide)

end Hierarchy
end Actor
end Rush
