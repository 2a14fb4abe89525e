import Rush.Persistence.StoreSpec

/-!
# The event table as a log

Under encodings that round-trip, what a store seals is opened again by every
store with the same key.  A table holds a list of events when its entries are
exactly these events under the numbers from 0 on.
-/

namespace Rush
namespace Persistence

open Foundation Database Actor

variable {P E : Type}

/-- Both assumptions on the encodings: decoding inverts encoding, and encoding
never fails. -/
structure Codec.RoundTrips (codec : Codec P E) : Prop where
  event : ∀ e, ∃ bytes, codec.encodeEvent e = .ok bytes ∧
    codec.decodeEvent bytes = .ok e
  state : ∀ s, ∃ bytes, codec.encodeState s = .ok bytes ∧
    codec.decodeState bytes = .ok s

/-- Decryption inverts encryption under the same key and nonce, and encryption
never fails. -/
def Cipher.RoundTrips (cipher : Cipher) : Prop :=
  ∀ key nonce bytes, ∃ ciphertext,
    cipher.encrypt key nonce bytes = .ok ciphertext ∧
      cipher.decrypt key nonce ciphertext = .ok bytes

/-- The assumptions on the code around the store. -/
structure Platform.RoundTrips (pf : Platform P E) : Prop where
  codec : pf.codec.RoundTrips
  cipher : pf.cipher.RoundTrips

/-- Decoding inverts encoding and decryption inverts encryption, where these
succeed. -/
structure Platform.Inverts (pf : Platform P E) : Prop where
  event : ∀ e bytes, pf.codec.encodeEvent e = .ok bytes →
    pf.codec.decodeEvent bytes = .ok e
  state : ∀ s bytes, pf.codec.encodeState s = .ok bytes →
    pf.codec.decodeState bytes = .ok s
  cipher : ∀ key nonce bytes ciphertext,
    pf.cipher.encrypt key nonce bytes = .ok ciphertext →
      pf.cipher.decrypt key nonce ciphertext = .ok bytes

theorem Platform.RoundTrips.inverts {pf : Platform P E} (h : pf.RoundTrips) :
    pf.Inverts where
  event := by
    intro e bytes hencode
    obtain ⟨bytes', hencode', hdecode⟩ := h.codec.event e
    rw [hencode] at hencode'
    cases hencode'
    exact hdecode
  state := by
    intro s bytes hencode
    obtain ⟨bytes', hencode', hdecode⟩ := h.codec.state s
    rw [hencode] at hencode'
    cases hencode'
    exact hdecode
  cipher := by
    intro key nonce bytes ciphertext hencrypt
    obtain ⟨ciphertext', hencrypt', hdecrypt⟩ := h.cipher key nonce bytes
    rw [hencrypt] at hencrypt'
    cases hencrypt'
    exact hdecrypt

namespace Store

variable {pf : Platform P E} {env : Env} {store : Store}

/-- What the cipher inverts is decrypted from behind its nonce. -/
theorem decrypt_of_cipher {key : Key} {nonce : Nonce} {bytes ciphertext : Bytes}
    (h : pf.cipher.decrypt key nonce ciphertext = .ok bytes) :
    decrypt pf key (nonce.val ++ ciphertext) = .ok bytes := by
  have htake : (nonce.val ++ ciphertext).take nonceSize = nonce.val :=
    List.take_left' nonce.property
  have hdrop : (nonce.val ++ ciphertext).drop nonceSize = ciphertext :=
    List.drop_left' nonce.property
  unfold decrypt
  simp only [htake, hdrop, nonce.property, dif_pos, h]

/-- What `encrypt` returns is decrypted again. -/
theorem decrypt_of_encrypt (hpf : pf.Inverts) {key : Key} {nonce : Nonce}
    {bytes data : Bytes} (h : encrypt pf key nonce bytes = .ok data) :
    decrypt pf key data = .ok bytes := by
  unfold encrypt at h
  split at h
  · contradiction
  · rename_i ciphertext hencrypt
    cases h
    exact decrypt_of_cipher (hpf.cipher key nonce bytes ciphertext hencrypt)

/-- What is encrypted is decrypted again. -/
theorem decrypt_encrypt (hcipher : pf.cipher.RoundTrips) (key : Key)
    (nonce : Nonce) (bytes : Bytes) :
    ∃ data, encrypt pf key nonce bytes = .ok data ∧
      decrypt pf key data = .ok bytes := by
  obtain ⟨ciphertext, hencrypt, hdecrypt⟩ := hcipher key nonce bytes
  exact ⟨nonce.val ++ ciphertext, by simp only [encrypt, hencrypt],
    decrypt_of_cipher hdecrypt⟩

/-- A stored value that every store with the key `password` opens as `event`. -/
def Sealed (pf : Platform P E) (password : Option Key) (data : Bytes)
    (event : E) : Prop :=
  ∀ (env : Env) (store : Store) (keyUse : KeyUse), env.Healthy →
    store.keyBox = password → store.openEvent pf env keyUse data = .ok event

/-- What `sealEvent` returns is opened again. -/
theorem sealed_of_sealEvent (hpf : pf.Inverts) {event : E} {bytes : Bytes}
    (hseal : store.sealEvent pf env event = .ok bytes) :
    Sealed pf store.keyBox bytes event := by
  intro env' store' keyUse henv' hkey'
  unfold sealEvent encodeEvent at hseal
  cases hkey : store.keyBox with
  | none =>
      rw [hkey] at hkey'
      cases hencode : pf.codec.encodeEvent event with
      | error e => simp [hkey, hencode] at hseal
      | ok data =>
          obtain rfl : data = bytes := by simpa [hkey, hencode] using hseal
          simp [openEvent, hkey', decodeEvent, hpf.event event data hencode]
  | some key =>
      rw [hkey] at hkey'
      cases hunlock : env.unlock .persist with
      | false => simp [hkey, hunlock] at hseal
      | true =>
          cases hencode : pf.codec.encodeEvent event with
          | error e => simp [hkey, hunlock, hencode, bind, Except.bind] at hseal
          | ok data =>
              have hencrypt : encrypt pf key env.eventNonce data = .ok bytes := by
                simpa [hkey, hunlock, hencode, bind, Except.bind] using hseal
              simp [openEvent, hkey', henv'.2.2, bind, Except.bind,
                decrypt_of_encrypt hpf hencrypt, decodeEvent,
                hpf.event event data hencode]

theorem sealEvent_ok (store : Store) (hpf : pf.RoundTrips)
    (henv : env.Healthy) (event : E) :
    ∃ data, store.sealEvent pf env event = .ok data ∧
      Sealed pf store.keyBox data event := by
  obtain ⟨bytes, hencode, hdecode⟩ := hpf.codec.event event
  cases hkey : store.keyBox with
  | none =>
      refine ⟨bytes, by simp [sealEvent, hkey, encodeEvent, hencode], ?_⟩
      intro env' store' keyUse _ hkey'
      simp [openEvent, hkey', decodeEvent, hdecode]
  | some key =>
      obtain ⟨data, hencrypt, hdecrypt⟩ :=
        decrypt_encrypt hpf.cipher key env.eventNonce bytes
      refine ⟨data, ?_, ?_⟩
      · simp [sealEvent, hkey, henv.2.2, encodeEvent, hencode, bind,
          Except.bind, hencrypt]
      · intro env' store' keyUse henv' hkey'
        simp [openEvent, hkey', henv'.2.2, bind, Except.bind, hdecrypt,
          decodeEvent, hdecode]

/-- A stored snapshot that every store with the key `password` reads as `s`
with the counter `c`. -/
def SealedState (pf : Platform P E) (password : Option Key) (data : Bytes)
    (s : P) (c : UInt64) : Prop :=
  ∀ (env : Env) (store : Store), env.Healthy → store.keyBox = password →
    store.states = some data → store.getState pf env = .ok (some (s, c))

/-- The stored snapshot is this state: every store with the key reads it. -/
def HasSnapshot (pf : Platform P E) (password : Option Key) (tables : Tables)
    (s : P) (c : UInt64) : Prop :=
  ∃ data, tables.states = some data ∧ SealedState pf password data s c

/-- What `sealState` returns is read again, if the key was unsealed for it. -/
theorem sealedState_of_sealState (hpf : pf.Inverts)
    (hunlock : store.keyBox ≠ none → env.unlock .snapshot = true) {s : P}
    {c : UInt64} {bytes : Bytes} (hseal : store.sealState pf env s c = .ok bytes) :
    SealedState pf store.keyBox bytes s c := by
  intro env' store' henv' hkey' hstates
  unfold sealState at hseal
  cases hencode : pf.codec.encodeState (s, c) with
  | error e => simp [hencode] at hseal
  | ok data =>
      have hdecode := hpf.state (s, c) data hencode
      cases hkey : store.keyBox with
      | none =>
          rw [hkey] at hkey'
          obtain rfl : data = bytes := by simpa [hkey, hencode] using hseal
          simp [getState, getStateData, henv'.1, hstates, hkey', bind,
            Except.bind, hdecode, pure, Except.pure]
      | some key =>
          rw [hkey] at hkey'
          have hencrypt : encrypt pf key env.stateNonce data = .ok bytes := by
            simpa [hkey, hencode, hunlock (by simp [hkey])] using hseal
          simp [getState, getStateData, henv'.1, hstates, hkey', henv'.2.2, bind,
            Except.bind, decrypt_of_encrypt hpf hencrypt, hdecode, pure,
            Except.pure]

theorem sealState_ok (store : Store) (hpf : pf.RoundTrips)
    (henv : env.Healthy) (s : P) (c : UInt64) :
    ∃ data, store.sealState pf env s c = .ok data ∧
      SealedState pf store.keyBox data s c := by
  obtain ⟨bytes, hencode, hdecode⟩ := hpf.codec.state (s, c)
  cases hkey : store.keyBox with
  | none =>
      refine ⟨bytes, by simp [sealState, hkey, hencode], ?_⟩
      intro env' store' henv' hkey' hstates
      simp [getState, getStateData, henv'.1, hstates, hkey', bind, Except.bind,
        hdecode, pure, Except.pure]
  | some key =>
      obtain ⟨data, hencrypt, hdecrypt⟩ :=
        decrypt_encrypt hpf.cipher key env.stateNonce bytes
      refine ⟨data, ?_, ?_⟩
      · simp [sealState, hkey, henv.2.2, hencode, hencrypt]
      · intro env' store' henv' hkey' hstates
        simp [getState, getStateData, henv'.1, hstates, hkey', henv'.2.2, bind,
          Except.bind, hdecrypt, hdecode, pure, Except.pure]

theorem not_writeFails_of_healthy (hpf : pf.RoundTrips) (henv : env.Healthy)
    (s : P) (c : UInt64) : ¬ store.WriteFails pf env s c := by
  obtain ⟨data, hseal, -⟩ := sealState_ok store hpf henv s c
  exact not_writeFails hseal (henv.1 .statesPut)

end Store

/-- The entries of the table are these events under the numbers from 0 on. -/
structure HoldsEvents (pf : Platform P E) (password : Option Key)
    (table : Table) (events : List E) : Prop where
  lookup : ∀ (i : Nat) (event : E), events[i]? = some event →
    ∃ data, table[eventKey (UInt64.ofNat i)]? = some data ∧
      Store.Sealed pf password data event
  keys : ∀ key ∈ table, ∃ i < events.length, key = eventKey (UInt64.ofNat i)
  bounded : events.length ≤ 2 ^ 64

namespace HoldsEvents

variable {pf : Platform P E} {password : Option Key} {table : Table}
  {events : List E}

theorem empty (pf : Platform P E) (password : Option Key) :
    HoldsEvents pf password ∅ [] where
  lookup := by simp
  keys := by simp
  bounded := by simp

theorem toNat_ofNat {i : Nat} (hi : i < 2 ^ 64) :
    (UInt64.ofNat i).toNat = i := by
  rw [UInt64.toNat_ofNat', Nat.mod_eq_of_lt hi]

/-- A put under the next number appends its event. -/
theorem insert (h : HoldsEvents pf password table events) {data : Bytes}
    {event : E} (hsealed : Store.Sealed pf password data event)
    (hbound : events.length + 1 ≤ 2 ^ 64) :
    HoldsEvents pf password
      (table.insert (eventKey (UInt64.ofNat events.length)) data)
      (events ++ [event]) where
  lookup := by
    intro i e hi
    have hlt : i < events.length + 1 := by
      have hsome := (List.getElem?_eq_some_iff.mp hi).1
      simpa using hsome
    by_cases hlast : i = events.length
    · subst hlast
      have he : event = e := by simpa using hi
      subst he
      exact ⟨data, Std.ExtTreeMap.getElem?_insert_self, hsealed⟩
    · have hold : events[i]? = some e := by
        rwa [List.getElem?_append_left (by omega)] at hi
      obtain ⟨data', hdata', hsealed'⟩ := h.lookup i e hold
      refine ⟨data', ?_, hsealed'⟩
      rw [getElem?_insert_eq, if_neg, hdata']
      intro hkey
      have hnum := congrArg UInt64.toNat (eventKey_inj.mp hkey)
      rw [toNat_ofNat (by omega), toNat_ofNat (by omega)] at hnum
      exact hlast hnum
  keys := by
    intro key hkey
    rcases Std.ExtTreeMap.mem_insert.mp hkey with heq | hold
    · refine ⟨events.length, by simp, ?_⟩
      exact (Std.LawfulEqOrd.eq_of_compare heq).symm
    · obtain ⟨i, hi, rfl⟩ := h.keys key hold
      exact ⟨i, by rw [List.length_append]; omega, rfl⟩
  bounded := by simpa using hbound

theorem last_none (h : HoldsEvents pf password table []) :
    table.last? = none := by
  rw [Table.last?_eq_none_iff, Std.ExtTreeMap.eq_empty_iff_forall_not_mem]
  intro key hkey
  obtain ⟨i, hi, -⟩ := h.keys key hkey
  exact absurd hi (Nat.not_lt_zero i)

/-- The last entry is the event with the greatest number. -/
theorem last_some (h : HoldsEvents pf password table events)
    (hne : events ≠ []) :
    ∃ data event, events.getLast? = some event ∧
      table.last? =
        some (eventKey (UInt64.ofNat (events.length - 1)), data) ∧
      Store.Sealed pf password data event := by
  have hpos : 0 < events.length := List.length_pos_iff.mpr hne
  have hbound := h.bounded
  obtain ⟨event, hevent⟩ : ∃ event, events[events.length - 1]? = some event :=
    ⟨_, List.getElem?_eq_getElem (by omega)⟩
  obtain ⟨data, hdata, hsealed⟩ := h.lookup _ event hevent
  refine ⟨data, event, ?_, ?_, hsealed⟩
  · rw [List.getLast?_eq_getElem?, hevent]
  · rw [Table.last?_eq_some_iff]
    refine ⟨hdata, ?_⟩
    intro key hkey hother
    obtain ⟨i, hi, rfl⟩ := h.keys key hkey
    have hlt : i < events.length - 1 := by
      by_contra hge
      have hsame : i = events.length - 1 := by omega
      exact hother (by rw [hsame])
    rw [compare_eventKey, toNat_ofNat (by omega), toNat_ofNat (by omega)]
    exact Nat.compare_eq_lt.mpr hlt

/-- The events from number `k` on are read from `k` on. -/
theorem eventsAt (h : HoldsEvents pf password table events) {env : Env}
    {store : Store} (henv : env.Healthy) (hkey : store.keyBox = password)
    (htable : store.events = table) (k : Nat) :
    store.EventsAt pf env (UInt64.ofNat k) (events.drop k) := by
  apply Store.EventsAt.of_get
  intro j event hj
  rw [List.getElem?_drop] at hj
  obtain ⟨data, hdata, hsealed⟩ := h.lookup (k + j) event hj
  refine ⟨data, ?_, hsealed env store _ henv hkey⟩
  rw [UInt64.ofNat_add] at hdata
  simp [Store.getEvent, henv.1, htable, Table.get, hdata]

end HoldsEvents

end Persistence
end Rush
