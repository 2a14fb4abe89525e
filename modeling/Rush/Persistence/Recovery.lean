import Rush.Persistence.CounterActor

/-!
# What a recovery may mark as applied

`recover` replays the events after the snapshot and writes the result under the
number of the last event.  `events` ends silently at the first number that can't
be got, so the snapshot may claim events that were never applied.  This file
says exactly when it does not.
-/

namespace Rush
namespace Persistence

open Foundation Database Actor

variable {P E : Type}

namespace Store

variable (pf : Platform P E) (env : Env) (store : Store)

/-- Every event numbered from `c + 1` to `m` is among the events whose
application to `s` gives `s'`. -/
def Applied (c m : UInt64) (s s' : P) : Prop :=
  ∃ events, pf.applyAll s events = .ok s' ∧
    (c < m → store.EventsAt pf env (c + 1) events ∧
      events.length = m.toNat - c.toNat)

/-- `recover`, with a stored snapshot `(s, c)` and a last event number `n`,
marks no event as applied that was not. -/
structure MarksOnlyApplied (s : P) (c n : UInt64) : Prop where
  /-- A snapshot that is written holds every event up to its counter. -/
  written : (store.recover pf env).2.states = store.states ∨
    ∃ s' bytes,
      store.sealState pf env s' (store.recover pf env).2.stateCounter =
          .ok bytes ∧
        (store.recover pf env).2.states = some bytes ∧
        store.Applied pf env c (store.recover pf env).2.stateCounter s s'
  /-- An event that can't be read is an error, and nothing is written. -/
  unread : (∃ i, c < i ∧ i ≤ n ∧ ¬ store.Readable env i) →
    (∃ e, (store.recover pf env).1 = .error (.error e)) ∧
      (store.recover pf env).2.states = store.states

/-- The first unreadable event `u` goes unnoticed only if nothing else fails:
here an earlier event can't be opened, or applying the earlier events fails, or
the snapshot can't be written. -/
def FailsAnyway (s : P) (c n u : UInt64) : Prop :=
  ∃ events, store.EventsAt pf env (c + 1) events ∧
    (c.toNat + events.length + 1 < u.toNat ∧
        (∃ e, store.Opens pf env (c + 1 + UInt64.ofNat events.length)
          (.error (.error e))) ∨
      c.toNat + events.length + 1 = u.toNat ∧
        ∀ s', pf.applyAll s events = .ok s' → store.WriteFails pf env s' n)

variable {pf env store}

section Loaded

variable {s : P} {c n : UInt64} {key : Str} {data : Bytes}
  (hstate : store.getState pf env = .ok (some (s, c)))
  (hlast : store.last env = some (key, data)) (hkey : parseU64 key = .ok n)

include hstate hlast hkey

/-- A replay that fails ends `recover` and writes nothing. -/
theorem recover_of_replay_error (hne : n ≠ c) {e : Failure StoreError}
    (hreplay : replay pf env { store with stateCounter := c, eventCounter := n }
      s = .error e) :
    store.recover pf env =
      (.error e, { store with stateCounter := c, eventCounter := n }) := by
  simp only [recover_eq hstate hlast hkey, if_neg hne, hreplay]

/-- A replay that succeeds is followed by a snapshot of its result. -/
theorem recover_of_replay_ok (hne : n ≠ c) {s' : P}
    (hreplay : replay pf env { store with stateCounter := c, eventCounter := n }
      s = .ok s') :
    (store.WriteFails pf env s' n ∧
      ∃ e, store.recover pf env = (.error (.error e),
        { store with stateCounter := n, eventCounter := n })) ∨
    ∃ bytes, store.sealState pf env s' n = .ok bytes ∧
      ¬ store.WriteFails pf env s' n ∧
      store.recover pf env = (.ok (some s'),
        { store with
          stateCounter := n
          eventCounter := n
          states := some bytes }) := by
  have hrecover := recover_eq hstate hlast hkey
  simp only [if_neg hne, hreplay] at hrecover
  rcases snapshot_cases pf env
      { store with stateCounter := c, eventCounter := n } s' with
    ⟨hfails, e, hsnapshot⟩ | ⟨bytes, hseal, hput, hsnapshot⟩
  · refine Or.inl ⟨hfails, e, ?_⟩
    rw [hrecover, hsnapshot]
  · refine Or.inr ⟨bytes, hseal, not_writeFails hseal hput, ?_⟩
    rw [hrecover, hsnapshot]

omit hstate hlast hkey in
theorem exists_first_unreadable
    (h : ∃ i, c < i ∧ i ≤ n ∧ ¬ store.Readable env i) :
    ∃ u, c < u ∧ u ≤ n ∧ ¬ store.Readable env u ∧
      ∀ i, c < i → i < u → store.Readable env i := by
  obtain ⟨i, hci, hin, hunread⟩ := h
  induction hi : i.toNat using Nat.strong_induction_on generalizing i with
  | _ m ih =>
      by_cases hearlier : ∃ j, c < j ∧ j < i ∧ ¬ store.Readable env j
      · obtain ⟨j, hcj, hji, hj⟩ := hearlier
        have hlt : j.toNat < m := hi ▸ UInt64.lt_iff_toNat_lt.mp hji
        exact ih j.toNat hlt j hcj (UInt64.le_trans (UInt64.le_of_lt hji) hin) hj rfl
      · refine ⟨i, hci, hin, hunread, fun j hcj hji => ?_⟩
        by_contra hj
        exact hearlier ⟨j, hcj, hji, hj⟩

omit hstate hlast hkey in
theorem replay_ok_applies {loaded : Store} {s' : P}
    (h : loaded.replay pf env s = .ok s') :
    ∃ events, pf.applyAll s events = .ok s' := by
  unfold replay at h
  cases hstart : pf.succ loaded.stateCounter with
  | error e => simp [hstart, bind, Except.bind] at h
  | ok start =>
      cases hevents : loaded.eventsIn pf env start loaded.eventCounter with
      | error e => simp [hstart, hevents, bind, Except.bind] at h
      | ok events =>
          refine ⟨events, ?_⟩
          simpa [hstart, hevents, bind, Except.bind] using h

/-- What is written holds some applied events; the part of the statement about
the range is left to the caller. -/
theorem recover_written
    (hrange : c < n → ∀ s',
      replay pf env { store with stateCounter := c, eventCounter := n } s =
        .ok s' → ¬ store.WriteFails pf env s' n →
      store.Applied pf env c n s s') :
    (store.recover pf env).2.states = store.states ∨
    ∃ s' bytes,
      store.sealState pf env s' (store.recover pf env).2.stateCounter =
          .ok bytes ∧
        (store.recover pf env).2.states = some bytes ∧
        store.Applied pf env c (store.recover pf env).2.stateCounter s s' := by
  by_cases hne : n = c
  · refine Or.inl ?_
    simp only [recover_eq hstate hlast hkey, if_pos hne]
  · cases hreplay : replay pf env
        { store with stateCounter := c, eventCounter := n } s with
    | error e =>
        exact Or.inl (by rw [recover_of_replay_error hstate hlast hkey hne hreplay])
    | ok s' =>
        rcases recover_of_replay_ok hstate hlast hkey hne hreplay with
          ⟨-, e, hrecover⟩ | ⟨bytes, hseal, hwrites, hrecover⟩
        · exact Or.inl (by rw [hrecover])
        · refine Or.inr ⟨s', bytes, ?_⟩
          rw [hrecover]
          refine ⟨hseal, rfl, ?_⟩
          by_cases hlt : c < n
          · exact hrange hlt s' hreplay hwrites
          · obtain ⟨events, happlied⟩ := replay_ok_applies hreplay
            exact ⟨events, happlied, fun h => (hlt h).elim⟩

end Loaded

/-- Every first gap of the range is covered by another failure. -/
def GapsFail (pf : Platform P E) (env : Env) (store : Store) (s : P)
    (c n : UInt64) : Prop :=
  ∀ u, c < u → u ≤ n → ¬ store.Readable env u →
    (∀ i, c < i → i < u → store.Readable env i) →
    store.FailsAnyway pf env s c n u

section Range

variable {s : P} {c n : UInt64} {events : List E}

/-- The number after the events that a range begins with. -/
theorem toNat_after {k : Nat} (hk : c.toNat + 1 + k ≤ n.toNat) :
    (c + 1 + UInt64.ofNat k).toNat = c.toNat + 1 + k := by
  have hn : n.toNat < 2 ^ 64 := n.toNat_lt
  have hsucc : (c + 1).toNat = c.toNat + 1 := toNat_add_ofNat (k := 1) (by omega)
  rw [toNat_add_ofNat (by omega), hsucc]

/-- Events that are there can be read, up to the number of the last one. -/
theorem readable_of_eventsAt (hlt : c < n)
    (hat : store.EventsAt pf env (c + 1) events) {i : UInt64} (hci : c < i)
    (hi : i.toNat ≤ c.toNat + events.length) : store.Readable env i := by
  have hcn : c.toNat < n.toNat := UInt64.lt_iff_toNat_lt.mp hlt
  have hn : n.toNat < 2 ^ 64 := n.toNat_lt
  have hsucc : (c + 1).toNat = c.toNat + 1 := toNat_add_ofNat (k := 1) (by omega)
  have hci' : c.toNat < i.toNat := UInt64.lt_iff_toNat_lt.mp hci
  exact hat.readable (by omega) (by omega)

/-- How the replay of the events `c + 1` to `n` ends: all have been read, or it
stops at a gap, or an event can't be opened. -/
theorem replay_cases (pf : Platform P E) (env : Env) (store : Store) (s : P)
    (hlt : c < n) :
    (∃ events, store.EventsAt pf env (c + 1) events ∧
        events.length = n.toNat - c.toNat ∧
        replay pf env { store with stateCounter := c, eventCounter := n } s =
          pf.applyAll s events) ∨
      (∃ events, store.EventsAt pf env (c + 1) events ∧
        c.toNat + 1 + events.length ≤ n.toNat ∧
        ¬ store.Readable env (c + 1 + UInt64.ofNat events.length) ∧
        replay pf env { store with stateCounter := c, eventCounter := n } s =
          pf.applyAll s events) ∨
      ∃ events e, store.EventsAt pf env (c + 1) events ∧
        c.toNat + 1 + events.length ≤ n.toNat ∧
        store.Opens pf env (c + 1 + UInt64.ofNat events.length) (.error e) ∧
        replay pf env { store with stateCounter := c, eventCounter := n } s =
          .error e := by
  have hcn : c.toNat < n.toNat := UInt64.lt_iff_toNat_lt.mp hlt
  have hn : n.toNat < 2 ^ 64 := n.toNat_lt
  have hreplay := replay_eq pf env store (c := c) (by omega) n s
  obtain ⟨events, hat, hle, hend⟩ :=
    eventsFrom_cases pf env store (n.toNat - c.toNat) (c + 1)
  rcases hend with ⟨hstop, hread⟩ | ⟨hshort, e, herror, hread⟩
  · rw [hread] at hreplay
    by_cases hall : events.length = n.toNat - c.toNat
    · exact Or.inl ⟨events, hat, hall, hreplay⟩
    · have hgap := hstop (by omega)
      exact Or.inr (Or.inl ⟨events, hat, by omega, hgap, hreplay⟩)
  · rw [hread] at hreplay
    exact Or.inr (Or.inr ⟨events, e, hat, by omega, herror, hreplay⟩)

/-- The first gap of a range is the number after the events that were read. -/
theorem first_gap_eq (hlt : c < n) (hat : store.EventsAt pf env (c + 1) events)
    (hlen : c.toNat + 1 + events.length ≤ n.toNat)
    (hgap : ¬ store.Readable env (c + 1 + UInt64.ofNat events.length))
    {u : UInt64} (hcu : c < u) (hunread : ¬ store.Readable env u)
    (hfirst : ∀ i, c < i → i < u → store.Readable env i) :
    u.toNat = c.toNat + 1 + events.length := by
  have hafter := toNat_after (c := c) hlen
  have hcu' : c.toNat < u.toNat := UInt64.lt_iff_toNat_lt.mp hcu
  have hlow : c.toNat + 1 + events.length ≤ u.toNat := by
    by_contra hbefore
    exact hunread (readable_of_eventsAt hlt hat hcu (by omega))
  have hhigh : u.toNat ≤ c.toNat + 1 + events.length := by
    by_contra hbeyond
    refine hgap (hfirst _ ?_ ?_)
    · exact UInt64.lt_iff_toNat_lt.mpr (by omega)
    · exact UInt64.lt_iff_toNat_lt.mpr (by omega)
  omega

/-- An event that can't be opened comes before every gap. -/
theorem unopened_before_gap (hlt : c < n)
    (hat : store.EventsAt pf env (c + 1) events)
    (hlen : c.toNat + 1 + events.length ≤ n.toNat) {e : Failure StoreError}
    (herror : store.Opens pf env (c + 1 + UInt64.ofNat events.length) (.error e))
    {u : UInt64} (hcu : c < u) (hunread : ¬ store.Readable env u) :
    c.toNat + 1 + events.length < u.toNat := by
  have hafter := toNat_after (c := c) hlen
  by_contra hbefore
  by_cases hu : u = c + 1 + UInt64.ofNat events.length
  · exact hunread (hu ▸ herror.readable)
  · have hne : u.toNat ≠ c.toNat + 1 + events.length := fun heq =>
      hu (UInt64.toNat_inj.mp (heq.trans hafter.symm))
    exact hunread (readable_of_eventsAt hlt hat hcu (by omega))

/-- Events that were read stop at the first one that can't be opened. -/
theorem length_le_of_opens_error {es : List E} {i : UInt64}
    {e : Failure StoreError} (hes : store.EventsAt pf env i es)
    (herror : store.Opens pf env (i + UInt64.ofNat events.length) (.error e)) :
    es.length ≤ events.length := by
  refine hes.length_le fun event hok => ?_
  have hboth := hok.unique herror
  contradiction

end Range

section Outcomes

variable {s : P} {c n : UInt64} {key : Str} {data : Bytes} {events : List E}
  (hstate : store.getState pf env = .ok (some (s, c)))
  (hlast : store.last env = some (key, data)) (hkey : parseU64 key = .ok n)
  (hlt : c < n) (hat : store.EventsAt pf env (c + 1) events)

include hstate hlast hkey hlt hat

/-- If all events were read, there is no gap and all of them are applied. -/
theorem marksOnlyApplied_of_all_read
    (hall : events.length = n.toNat - c.toNat)
    (hreplay : replay pf env { store with stateCounter := c, eventCounter := n }
      s = pf.applyAll s events) :
    store.MarksOnlyApplied pf env s c n ∧ store.GapsFail pf env s c n := by
  have hcn : c.toNat < n.toNat := UInt64.lt_iff_toNat_lt.mp hlt
  have hreadable : ∀ i, c < i → i ≤ n → store.Readable env i := by
    intro i hci hin
    have hin' : i.toNat ≤ n.toNat := UInt64.le_iff_toNat_le.mp hin
    exact readable_of_eventsAt hlt hat hci (by omega)
  refine ⟨⟨recover_written hstate hlast hkey fun _ s' hs' _ => ?_, ?_⟩, ?_⟩
  · exact ⟨events, hreplay ▸ hs', fun _ => ⟨hat, hall⟩⟩
  · intro hgap
    obtain ⟨i, hci, hin, hunread⟩ := hgap
    exact absurd (hreadable i hci hin) hunread
  · intro u hcu hun hunread
    exact absurd (hreadable u hcu hun) hunread

/-- At a gap, what was read is applied, and only a failure of that keeps the gap
from being marked. -/
theorem marksOnlyApplied_iff_of_gap
    (hlen : c.toNat + 1 + events.length ≤ n.toNat)
    (hgap : ¬ store.Readable env (c + 1 + UInt64.ofNat events.length))
    (hreplay : replay pf env { store with stateCounter := c, eventCounter := n }
      s = pf.applyAll s events) :
    store.MarksOnlyApplied pf env s c n ↔ store.GapsFail pf env s c n := by
  have hne : n ≠ c := (UInt64.ne_of_lt hlt).symm
  have hafter := toNat_after (c := c) hlen
  constructor
  · intro hmarks u hcu hun hunread hfirst
    have hu := first_gap_eq hlt hat hlen hgap hcu hunread hfirst
    refine ⟨events, hat, Or.inr ⟨by omega, fun s' hs' => ?_⟩⟩
    rcases recover_of_replay_ok hstate hlast hkey hne (hreplay.trans hs') with
      ⟨hfails, -⟩ | ⟨bytes, -, -, hrecover⟩
    · exact hfails
    · obtain ⟨⟨e, herror⟩, -⟩ := hmarks.unread ⟨u, hcu, hun, hunread⟩
      rw [hrecover] at herror
      contradiction
  · intro hfail
    obtain ⟨es, hes, hfails⟩ := hfail _
      (UInt64.lt_iff_toNat_lt.mpr (by omega))
      (UInt64.le_iff_toNat_le.mpr (by omega)) hgap
      (by
        intro i hci hiu
        have hiu' := UInt64.lt_iff_toNat_lt.mp hiu
        exact readable_of_eventsAt hlt hat hci (by omega))
    rcases hfails with ⟨hbefore, e, herror⟩ | ⟨hlength, hwrite⟩
    · have hle : events.length ≤ es.length := length_le_of_opens_error hat herror
      omega
    · obtain rfl : es = events := hes.unique hat (by omega)
      refine ⟨recover_written hstate hlast hkey fun _ s' hs' hnot => ?_, ?_⟩
      · exact absurd (hwrite s' (hreplay ▸ hs')) hnot
      · intro _
        cases happly : pf.applyAll s es with
        | error e =>
            rw [recover_of_replay_error hstate hlast hkey hne
              (hreplay.trans happly)]
            cases e with
            | error e => exact ⟨⟨e, rfl⟩, rfl⟩
            | panic => exact absurd happly (pf.applyAll_ne_panic s es)
        | ok s' =>
            rcases recover_of_replay_ok hstate hlast hkey hne
                (hreplay.trans happly) with
              ⟨-, e, hrecover⟩ | ⟨bytes, -, hnot, -⟩
            · rw [hrecover]
              exact ⟨⟨e, rfl⟩, rfl⟩
            · exact absurd (hwrite s' happly) hnot

/-- An event that can't be opened ends `recover` before any gap. -/
theorem marksOnlyApplied_iff_of_unopened {e : Failure StoreError}
    (hlen : c.toNat + 1 + events.length ≤ n.toNat)
    (herror : store.Opens pf env (c + 1 + UInt64.ofNat events.length) (.error e))
    (hreplay : replay pf env { store with stateCounter := c, eventCounter := n }
      s = .error e) :
    store.MarksOnlyApplied pf env s c n ↔ store.GapsFail pf env s c n := by
  have hne : n ≠ c := (UInt64.ne_of_lt hlt).symm
  have hrecover := recover_of_replay_error hstate hlast hkey hne hreplay
  constructor
  · intro hmarks u hcu hun hunread _
    obtain ⟨⟨e', he'⟩, -⟩ := hmarks.unread ⟨u, hcu, hun, hunread⟩
    rw [hrecover] at he'
    obtain rfl : e = .error e' := Except.error.inj he'
    have hu := unopened_before_gap hlt hat hlen herror hcu hunread
    exact ⟨events, hat, Or.inl ⟨by omega, e', herror⟩⟩
  · intro hfail
    refine ⟨Or.inl (by rw [hrecover]), fun hgap => ?_⟩
    obtain ⟨u, hcu, hun, hunread, hfirst⟩ := exists_first_unreadable hgap
    have hu := unopened_before_gap hlt hat hlen herror hcu hunread
    obtain ⟨es, hes, hfails⟩ := hfail u hcu hun hunread hfirst
    have hle : es.length ≤ events.length := length_le_of_opens_error hes herror
    rcases hfails with ⟨-, e', herror'⟩ | ⟨hlength, -⟩
    · -- both lists end at the same event, so it fails with one error
      have hle' : events.length ≤ es.length :=
        length_le_of_opens_error hat herror'
      have hlength : es.length = events.length := by omega
      rw [hlength] at herror'
      obtain rfl : e = .error e' := Except.error.inj (herror.unique herror')
      rw [hrecover]
      exact ⟨⟨e', rfl⟩, rfl⟩
    · omega

end Outcomes

/-- **Recovery marks only what it applied** if and only if every event after
the snapshot can be read, or something else fails before the first one that
can't. -/
theorem marksOnlyApplied_iff {s : P} {c n : UInt64} {key : Str} {data : Bytes}
    (hstate : store.getState pf env = .ok (some (s, c)))
    (hlast : store.last env = some (key, data))
    (hkey : parseU64 key = .ok n) :
    store.MarksOnlyApplied pf env s c n ↔
      ∀ u, c < u → u ≤ n → ¬ store.Readable env u →
        (∀ i, c < i → i < u → store.Readable env i) →
        store.FailsAnyway pf env s c n u := by
  show store.MarksOnlyApplied pf env s c n ↔ store.GapsFail pf env s c n
  by_cases hlt : c < n
  · rcases replay_cases pf env store s hlt with
      ⟨events, hat, hall, hreplay⟩ | ⟨events, hat, hlen, hgap, hreplay⟩ |
        ⟨events, e, hat, hlen, herror, hreplay⟩
    · have hboth :=
        marksOnlyApplied_of_all_read hstate hlast hkey hlt hat hall hreplay
      exact iff_of_true hboth.1 hboth.2
    · exact marksOnlyApplied_iff_of_gap hstate hlast hkey hlt hat hlen hgap
        hreplay
    · exact marksOnlyApplied_iff_of_unopened hstate hlast hkey hlt hat hlen
        herror hreplay
  · -- the snapshot is not behind the last event
    have hnone : ∀ u, c < u → ¬ u ≤ n := fun u hcu hun =>
      hlt (UInt64.lt_of_lt_of_le hcu hun)
    refine iff_of_true
      ⟨recover_written hstate hlast hkey fun h => absurd h hlt, ?_⟩ ?_
    · intro hgap
      obtain ⟨u, hcu, hun, -⟩ := hgap
      exact absurd hun (hnone u hcu)
    · intro u hcu hun
      exact absurd hun (hnone u hcu)

end Store

namespace CounterActor

/-- Events 1, 2, 3 and 4 under the numbers 0 to 3, after a snapshot of the state
0 with counter 0, and event number 2 can't be got. -/
def gap : Store × Env :=
  ({ tables [1, 2, 3, 4] (some [0, 0]) with
      eventCounter := 3, stateCounter := 0, keyBox := none },
    { env with
      fault := fun call =>
        if call = .eventsGet 2 then some (.get "io") else none })

/-- Without the failure the recovery of this store marks only what it applied. -/
theorem gapless_marksOnlyApplied :
    gap.1.MarksOnlyApplied platform env 0 0 3 := by
  have hlast : gap.1.last env = some (eventKey 3, [4]) := by decide +kernel
  refine (Store.marksOnlyApplied_iff (by decide +kernel) hlast
    (by decide +kernel)).mpr fun u hpos hle hunread _ => absurd ?_ hunread
  -- the events 1, 2 and 3 are there
  have hread : ∀ i : Fin 4,
      gap.1.getEvent env (UInt64.ofNat i.val) = .ok [UInt8.ofNat (i.val + 1)] := by
    decide +kernel
  have hlt : u.toNat < 4 := by
    rw [UInt64.le_iff_toNat_le] at hle
    exact Nat.lt_succ_of_le hle
  refine ⟨[UInt8.ofNat (u.toNat + 1)], ?_⟩
  simpa using hread ⟨u.toNat, hlt⟩

/-- The recovery answers the state 2, after event number 1 alone, and writes it
under the counter 3: the events 2 and 3 are lost. -/
theorem gap_not_marksOnlyApplied :
    (gap.1.recover platform gap.2).1 = .ok (some 2) ∧
      (gap.1.recover platform gap.2).2.states = some [2, 3] ∧
      ¬ gap.1.MarksOnlyApplied platform gap.2 0 0 3 := by
  have hanswer : (gap.1.recover platform gap.2).1 = .ok (some 2) := by
    decide +kernel
  refine ⟨hanswer, by decide +kernel, fun hmarks => ?_⟩
  have hunread : ¬ gap.1.Readable gap.2 2 := by
    rintro ⟨data, hdata⟩
    have hget : gap.1.getEvent gap.2 2 = .error (.get "io") := by
      decide +kernel
    rw [hget] at hdata
    contradiction
  obtain ⟨⟨e, herror⟩, -⟩ :=
    hmarks.unread ⟨2, by decide, by decide, hunread⟩
  rw [hanswer] at herror
  contradiction

end CounterActor

end Persistence
end Rush
