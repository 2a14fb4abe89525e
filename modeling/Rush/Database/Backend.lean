import Rush.Database.Collection
import Rush.Foundation.Simulation
import Mathlib.Logic.Function.Basic

/-!
# One table of a backend, through all its handles

The `DbManager`, `Collection` and `State` calls on one table name, as functions
of what the backend holds.  A session keeps the prefixes that a handle was
created for: only these can be used.  A backend refines another one when every
call answers the same and keeps the relation between what they hold; the only
call that may answer differently is the removal of an absent entry.
-/

namespace Rush
namespace Database

open Foundation

/-- The calls on one table.  `κ` are the keys below a prefix, `ρ` the reads
beyond `get` with their answers in `α`. -/
structure Backend (σ κ ρ α : Type) where
  create : σ → Str → Except StoreError Unit × σ
  get : σ → Str → κ → Except StoreError Bytes
  put : σ → Str → κ → Bytes → Except StoreError Unit × σ
  del : σ → Str → κ → Except StoreError Unit × σ
  purge : σ → Str → Except StoreError Unit × σ
  read : σ → Str → ρ → α

/-- One call, through a handle of the prefix. -/
inductive Operation (κ ρ : Type)
  | create (keyPrefix : Str)
  | put (keyPrefix : Str) (key : κ) (data : Bytes)
  | get (keyPrefix : Str) (key : κ)
  | del (keyPrefix : Str) (key : κ)
  | purge (keyPrefix : Str)
  | read (keyPrefix : Str) (query : ρ)

/-- The call does not create a handle of a prefix outside `P`. -/
def Operation.Within {κ ρ : Type} (P : Set Str) : Operation κ ρ → Prop
  | .create p => p ∈ P
  | _ => True

theorem Operation.within_univ {κ ρ : Type} (op : Operation κ ρ) :
    op.Within Set.univ := by
  cases op <;> trivial

/-- What a call returns.  For `del` the outcome also records what `get` would
have answered just before. -/
inductive Outcome (α : Type)
  | done (result : Except StoreError Unit)
  | got (result : Except StoreError Bytes)
  | deleted (before : Except StoreError Bytes) (result : Except StoreError Unit)
  | answered (answer : α)

/-- Equal outcomes, except for the result of removing an absent entry. -/
inductive SameOutcome {α : Type} : Outcome α → Outcome α → Prop
  | same (outcome : Outcome α) : SameOutcome outcome outcome
  | absent (e : StoreError) (result result' : Except StoreError Unit) :
      SameOutcome (.deleted (.error e) result) (.deleted (.error e) result')

theorem SameOutcome.symm {α : Type} {o p : Outcome α} (h : SameOutcome o p) :
    SameOutcome p o := by
  cases h with
  | same => exact .same _
  | absent e result result' => exact .absent e result' result

theorem SameOutcome.trans {α : Type} {o p q : Outcome α} (h : SameOutcome o p)
    (h' : SameOutcome p q) : SameOutcome o q := by
  cases h with
  | same => exact h'
  | absent e result result' =>
      cases h' with
      | same => exact .absent e result result'
      | absent _ _ result'' => exact .absent e result result''

/-- What the backend holds, and the prefixes with a handle. -/
structure Handles (σ : Type) where
  held : σ
  opened : List Str

namespace Backend

variable {σ τ κ ρ α : Type}

/-- One call; `none` when no handle of the prefix exists. -/
def step (B : Backend σ κ ρ α) (s : Handles σ) :
    Operation κ ρ → Option (Handles σ × List (Outcome α))
  | .create p =>
      let (result, held) := B.create s.held p
      match result with
      | .ok _ => some (⟨held, p :: s.opened⟩, [.done result])
      | .error _ => some (⟨held, s.opened⟩, [.done result])
  | .put p key data =>
      if p ∈ s.opened then
        let (result, held) := B.put s.held p key data
        some (⟨held, s.opened⟩, [.done result])
      else none
  | .get p key =>
      if p ∈ s.opened then some (s, [.got (B.get s.held p key)]) else none
  | .del p key =>
      if p ∈ s.opened then
        let (result, held) := B.del s.held p key
        some (⟨held, s.opened⟩, [.deleted (B.get s.held p key) result])
      else none
  | .purge p =>
      if p ∈ s.opened then
        let (result, held) := B.purge s.held p
        some (⟨held, s.opened⟩, [.done result])
      else none
  | .read p query =>
      if p ∈ s.opened then some (s, [.answered (B.read s.held p query)])
      else none

/-- Every call of `B` does what the call of `S` does, on related contents. -/
structure Refines (B : Backend σ κ ρ α) (S : Backend τ κ ρ α)
    (H : σ → List Str → τ → Prop) : Prop where
  create : ∀ {s ps t} p, H s ps t →
    (B.create s p).1 = .ok () ∧ (S.create t p).1 = .ok () ∧
      H (B.create s p).2 (p :: ps) (S.create t p).2
  get : ∀ {s ps t p} key, H s ps t → p ∈ ps → B.get s p key = S.get t p key
  put : ∀ {s ps t p} key data, H s ps t → p ∈ ps →
    (B.put s p key data).1 = (S.put t p key data).1 ∧
      H (B.put s p key data).2 ps (S.put t p key data).2
  del : ∀ {s ps t p} key, H s ps t → p ∈ ps →
    (∀ data, S.get t p key = .ok data →
      (B.del s p key).1 = (S.del t p key).1) ∧
      H (B.del s p key).2 ps (S.del t p key).2
  purge : ∀ {s ps t p}, H s ps t → p ∈ ps →
    (B.purge s p).1 = (S.purge t p).1 ∧ H (B.purge s p).2 ps (S.purge t p).2
  read : ∀ {s ps t p} query, H s ps t → p ∈ ps →
    B.read s p query = S.read t p query

/-- The same for the handles of the prefixes in `P`: no other handle is
created. -/
structure RefinesOn (P : Set Str) (B : Backend σ κ ρ α) (S : Backend τ κ ρ α)
    (H : σ → List Str → τ → Prop) : Prop where
  create : ∀ {s ps t p}, p ∈ P → H s ps t →
    (B.create s p).1 = .ok () ∧ (S.create t p).1 = .ok () ∧
      H (B.create s p).2 (p :: ps) (S.create t p).2
  get : ∀ {s ps t p} key, H s ps t → p ∈ ps → B.get s p key = S.get t p key
  put : ∀ {s ps t p} key data, H s ps t → p ∈ ps →
    (B.put s p key data).1 = (S.put t p key data).1 ∧
      H (B.put s p key data).2 ps (S.put t p key data).2
  del : ∀ {s ps t p} key, H s ps t → p ∈ ps →
    (∀ data, S.get t p key = .ok data →
      (B.del s p key).1 = (S.del t p key).1) ∧
      H (B.del s p key).2 ps (S.del t p key).2
  purge : ∀ {s ps t p}, H s ps t → p ∈ ps →
    (B.purge s p).1 = (S.purge t p).1 ∧ H (B.purge s p).2 ps (S.purge t p).2
  read : ∀ {s ps t p} query, H s ps t → p ∈ ps →
    B.read s p query = S.read t p query

/-- The relation between the sessions of two backends. -/
def Related (H : σ → List Str → τ → Prop) (s : Handles σ) (t : Handles τ) :
    Prop :=
  s.opened = t.opened ∧ H s.held s.opened t.held

variable {B : Backend σ κ ρ α} {S : Backend τ κ ρ α}
  {H : σ → List Str → τ → Prop}

/-- What refines on all prefixes refines on some. -/
theorem Refines.refinesOn (h : Refines B S H) (P : Set Str) :
    RefinesOn P B S H where
  create _ := h.create _
  get := h.get
  put := h.put
  del := h.del
  purge := h.purge
  read := h.read

/-- Related sessions stay related in every call. -/
theorem RefinesOn.step_agree {P : Set Str} (h : RefinesOn P B S H)
    {s : Handles σ} {t : Handles τ} (hrel : Related H s t) (op : Operation κ ρ)
    (hop : op.Within P) :
    Agree (Related H) SameOutcome (B.step s op) (S.step t op) := by
  obtain ⟨s, ps⟩ := s
  obtain ⟨t, qs⟩ := t
  obtain ⟨rfl, hheld⟩ : ps = qs ∧ H s ps t := hrel
  cases op with
  | create p =>
      obtain ⟨hB, hS, hnext⟩ := h.create hop hheld
      generalize hb : B.create s p = b at hB hnext
      generalize hs : S.create t p = c at hS hnext
      obtain ⟨result, s'⟩ := b
      obtain ⟨result', t'⟩ := c
      simp only at hB hS
      subst hB hS
      simp only [Backend.step, hb, hs]
      exact .taken ⟨rfl, hnext⟩ (.cons (.same _) .nil)
  | put p key data =>
      by_cases hp : p ∈ ps
      · obtain ⟨hresult, hnext⟩ := h.put key data hheld hp
        simp only [Backend.step, hp, if_true, hresult]
        exact .taken ⟨rfl, hnext⟩ (.cons (.same _) .nil)
      · simp only [Backend.step, hp, if_false]
        exact .refused
  | get p key =>
      by_cases hp : p ∈ ps
      · simp only [Backend.step, hp, if_true, h.get key hheld hp]
        exact .taken ⟨rfl, hheld⟩ (.cons (.same _) .nil)
      · simp only [Backend.step, hp, if_false]
        exact .refused
  | del p key =>
      by_cases hp : p ∈ ps
      · obtain ⟨hresult, hnext⟩ := h.del key hheld hp
        simp only [Backend.step, hp, if_true, h.get key hheld hp]
        refine .taken ⟨rfl, hnext⟩ (.cons ?_ .nil)
        -- the results may differ only when nothing was there
        cases hbefore : S.get t p key with
        | error e => exact .absent e _ _
        | ok data =>
            rw [hresult data hbefore]
            exact .same _
      · simp only [Backend.step, hp, if_false]
        exact .refused
  | purge p =>
      by_cases hp : p ∈ ps
      · obtain ⟨hresult, hnext⟩ := h.purge hheld hp
        simp only [Backend.step, hp, if_true, hresult]
        exact .taken ⟨rfl, hnext⟩ (.cons (.same _) .nil)
      · simp only [Backend.step, hp, if_false]
        exact .refused
  | read p query =>
      by_cases hp : p ∈ ps
      · simp only [Backend.step, hp, if_true, h.read query hheld hp]
        exact .taken ⟨rfl, hheld⟩ (.cons (.same _) .nil)
      · simp only [Backend.step, hp, if_false]
        exact .refused

theorem RefinesOn.execute_agree {P : Set Str} (h : RefinesOn P B S H)
    {s : Handles σ} {t : Handles τ} (hrel : Related H s t)
    {ops : List (Operation κ ρ)} (hops : ∀ op ∈ ops, op.Within P) :
    Agree (Related H) SameOutcome (execute B.step s ops)
      (execute S.step t ops) :=
  Foundation.execute_agree (G := fun op => Operation.Within P op)
    (fun _ _ op hst hop => h.step_agree hst op hop) hrel hops

/-- Two refinements of one backend agree with each other. -/
theorem RefinesOn.agree {P : Set Str} {υ : Type} {B' : Backend υ κ ρ α}
    {H' : υ → List Str → τ → Prop} (h : RefinesOn P B S H)
    (h' : RefinesOn P B' S H') {s : Handles σ} {u : Handles υ} {t : Handles τ}
    (hs : Related H s t) (hu : Related H' u t) {ops : List (Operation κ ρ)}
    (hops : ∀ op ∈ ops, op.Within P) :
    Agree (fun s u => ∃ t, Related H s t ∧ Related H' u t) SameOutcome
      (execute B.step s ops) (execute B'.step u ops) := by
  have hboth := (h.execute_agree hs hops).through (h'.execute_agree hu hops)
  refine hboth.mono (fun _ _ hrel => hrel) ?_
  intro o q hsame
  obtain ⟨p, hop, hqp⟩ := hsame
  exact hop.trans hqp.symm

theorem Refines.agree {υ : Type} {B' : Backend υ κ ρ α}
    {H' : υ → List Str → τ → Prop} (h : Refines B S H) (h' : Refines B' S H')
    {s : Handles σ} {u : Handles υ} {t : Handles τ} (hs : Related H s t)
    (hu : Related H' u t) (ops : List (Operation κ ρ)) :
    Agree (fun s u => ∃ t, Related H s t ∧ Related H' u t) SameOutcome
      (execute B.step s ops) (execute B'.step u ops) :=
  (h.refinesOn Set.univ).agree (h'.refinesOn Set.univ) hs hu
    fun op _ => op.within_univ

end Backend

end Database
end Rush
