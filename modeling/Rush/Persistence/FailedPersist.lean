import Rush.Persistence.CounterActor

/-!
# The state after a failed `persist`

`persist` applies the event to the state before it asks the store.  An event
that can't be applied is rolled back with `update`; the three ways to fail after
that return with the state as the event has left it.
-/

namespace Rush
namespace Persistence

open Actor

section Persist

variable {P E σ : Type} (actor : PersistentActor P E)
  (ask : StoreCommand P E → σ → Except ActorError (StoreResponse P E) × σ)
  (path : ActorPath) (child : Option σ) (state : P) (event : E)

/-- What `persist` asks the store: with light persistence the state goes along
with the event. -/
def PersistentActor.persistCommand (event : E) (state : P) : StoreCommand P E :=
  match actor.persistence with
  | .light => .persistLight event state
  | .full => .persist event

/-- If `persist` fails, the state is the one before the call. -/
def RollsBack : Prop :=
  ∀ e, (actor.persist ask path child state event).1 = .error e →
    (actor.persist ask path child state event).2.1 = state

/-- An event that is applied and changes the state is answered `Persisted`. -/
def ChangesOnlyIfPersisted : Prop :=
  ∀ store state', child = some store →
    actor.apply state event = (state', .ok ()) → state' ≠ state →
      (ask (actor.persistCommand event state') store).1 = .ok .persisted

variable {actor ask path child state event}

/-- An event that can't be applied leaves what `update` makes of the state. -/
theorem PersistentActor.persist_refused {store : σ} {state' : P} {e : ActorError}
    (happly : actor.apply state event = (state', .error e)) :
    actor.persist ask path (some store) state event =
      (.error e, actor.update state' state, some store) := by
  simp only [persist, happly]

/-- An applied event stays in the state, whatever the store answers; only the
answer `Persisted` is a success. -/
theorem PersistentActor.persist_applied {store : σ} {state' : P}
    (happly : actor.apply state event = (state', .ok ())) :
    (actor.persist ask path (some store) state event).2.1 = state' ∧
      ((∀ e, (actor.persist ask path (some store) state event).1 ≠ .error e) ↔
        (ask (actor.persistCommand event state') store).1 = .ok .persisted) := by
  -- the command is asked in one place for each kind of persistence
  cases hkind : actor.persistence with
  | light =>
      simp only [persist, happly, hkind, persistCommand]
      obtain ⟨response | response, store'⟩ :=
        ask (.persistLight event state') store
      · exact ⟨rfl, by simp⟩
      · cases response <;> exact ⟨rfl, by simp⟩
  | full =>
      simp only [persist, happly, hkind, persistCommand]
      obtain ⟨response | response, store'⟩ := ask (.persist event) store
      · exact ⟨rfl, by simp⟩
      · cases response <;> exact ⟨rfl, by simp⟩

/-- **A failed `persist` leaves the state as it was** if and only if an event
that changes the state is answered `Persisted`: whatever the store answers else,
the applied event is not taken back. -/
theorem persist_rollsBack_iff (hupdate : ∀ s t, actor.update s t = t) :
    RollsBack actor ask path child state event ↔
      ChangesOnlyIfPersisted actor ask child state event := by
  unfold RollsBack ChangesOnlyIfPersisted
  cases child with
  | none => simp [PersistentActor.persist]
  | some store =>
      rcases happly : actor.apply state event with ⟨state', e | _⟩
      · -- the rollback of `update`
        rw [PersistentActor.persist_refused happly]
        simp [hupdate]
      · obtain ⟨hstate, hpersisted⟩ :
            (actor.persist ask path (some store) state event).2.1 = state' ∧
              ((∀ e, (actor.persist ask path (some store) state event).1 ≠
                  .error e) ↔
                (ask (actor.persistCommand event state') store).1 =
                  .ok .persisted) :=
          PersistentActor.persist_applied happly
        rw [hstate]
        constructor
        · intro hback store₀ state₀ hstore happly₀ hne
          obtain ⟨rfl, rfl⟩ : store = store₀ ∧ state' = state₀ := by
            simpa [happly] using And.intro hstore happly₀
          exact hpersisted.mp fun e herror => hne (hback e herror)
        · intro hall e herror
          by_contra hne
          exact hpersisted.mpr (hall store state' rfl rfl hne) e herror

end Persist

namespace CounterActor

/-- A store that has not been used. -/
def unusedStore : Store where
  events := ∅
  states := none
  eventCounter := 0
  stateCounter := 0
  keyBox := none

/-- The path `/user/counter`. -/
def counterPath : ActorPath := ActorPath.ofText "/user/counter".toList

/-- `persist_rollsBack_iff` for the event 0, which can't be applied. -/
theorem refused_rollsBack :
    RollsBack platform.actor (Store.ask platform (failing .eventsPut))
      counterPath (some unusedStore) 7 0 := by
  refine (persist_rollsBack_iff fun _ _ => rfl).mpr ?_
  intro store state' _ happly _
  simp [platform] at happly

/-- The event 5 is applied to the state 0 and its `put` fails: `persist` answers
an error and the state is 5. -/
theorem failed_persist_keeps_event :
    (platform.actor.persist (Store.ask platform (failing .eventsPut)) counterPath
        (some unusedStore) 0 5).1 = .error (.store "Store error: fault") ∧
      (platform.actor.persist (Store.ask platform (failing .eventsPut))
        counterPath (some unusedStore) 0 5).2.1 = 5 ∧
      ¬ RollsBack platform.actor (Store.ask platform (failing .eventsPut))
        counterPath (some unusedStore) 0 5 := by
  have herror : (platform.actor.persist
      (Store.ask platform (failing .eventsPut)) counterPath (some unusedStore)
      0 5).1 = .error (.store "Store error: fault") := by
    decide +kernel
  have hstate : (platform.actor.persist
      (Store.ask platform (failing .eventsPut)) counterPath (some unusedStore)
      0 5).2.1 = 5 := by
    decide +kernel
  refine ⟨herror, hstate, fun hback => ?_⟩
  rw [hback _ herror] at hstate
  contradiction

end CounterActor

end Persistence
end Rush
