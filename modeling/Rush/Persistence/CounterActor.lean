import Rush.Persistence.EventLog
import Rush.Persistence.PersistentActor

/-!
# A small persistent actor

The state is one byte and an event adds its byte to it; the event 0 is refused.
Its encodings are those of `bincode` for counters below 251.
-/

namespace Rush
namespace Persistence

open Database Actor

namespace CounterActor

/-- One byte below 251, else the marker 251 and a unary number. -/
def encodeCounter (c : UInt64) : Bytes :=
  if c.toNat < 251 then [UInt8.ofNat c.toNat]
  else 251 :: List.replicate c.toNat 0

def decodeCounter : Bytes → Except String UInt64
  | [] => .error "UnexpectedEnd"
  | b :: rest =>
      if b.toNat < 251 then .ok (UInt64.ofNat b.toNat)
      else .ok (UInt64.ofNat rest.length)

def codec : Codec UInt8 UInt8 where
  encodeEvent := fun e => .ok [e]
  decodeEvent := fun
    | [] => .error "UnexpectedEnd"
    | b :: _ => .ok b
  encodeState := fun (s, c) => .ok (s :: encodeCounter c)
  decodeState := fun
    | [] => .error "UnexpectedEnd"
    | s :: rest => (decodeCounter rest).map fun c => (s, c)

/-- The key itself is the tag of the ciphertext. -/
def cipher : Cipher where
  encrypt := fun key _ bytes => .ok (key.val ++ bytes)
  decrypt := fun key _ ciphertext =>
    if key.val.isPrefixOf ciphertext then .ok (ciphertext.drop 32)
    else .error "aead::Error"

def platform : Platform UInt8 UInt8 where
  codec := codec
  cipher := cipher
  actor :=
    { persistence := .full
      apply := fun s e =>
        if e = 0 then (s, .error (.functional "zero")) else (s + e, .ok ()) }
  overflowChecks := false

def nonce : Nonce := ⟨List.replicate 12 0, rfl⟩

def password : Key := ⟨List.replicate 32 7, rfl⟩

def wrongPassword : Key := ⟨List.replicate 32 8, rfl⟩

/-- Nothing fails. -/
def env : Env where
  fault := fun _ => none
  sealPassword := none
  unlock := fun _ => true
  eventNonce := nonce
  stateNonce := nonce

theorem decodeCounter_encodeCounter (c : UInt64) :
    decodeCounter (encodeCounter c) = .ok c := by
  unfold encodeCounter
  by_cases hc : c.toNat < 251
  · have hbyte : (UInt8.ofNat c.toNat).toNat = c.toNat := by
      rw [UInt8.toNat_ofNat', Nat.mod_eq_of_lt (by omega)]
    rw [if_pos hc, decodeCounter, hbyte, if_pos hc, UInt64.ofNat_toNat]
  · rw [if_neg hc, decodeCounter, if_neg (by decide), List.length_replicate,
      UInt64.ofNat_toNat]

theorem codec_roundTrips : codec.RoundTrips where
  event := fun e => ⟨[e], rfl, rfl⟩
  state := by
    rintro ⟨s, c⟩
    refine ⟨s :: encodeCounter c, rfl, ?_⟩
    show (decodeCounter (encodeCounter c)).map (fun c => (s, c)) = _
    rw [decodeCounter_encodeCounter]
    rfl

theorem cipher_roundTrips : cipher.RoundTrips := by
  intro key nonce bytes
  refine ⟨key.val ++ bytes, rfl, ?_⟩
  have hprefix : key.val.isPrefixOf (key.val ++ bytes) = true :=
    List.isPrefixOf_iff_prefix.mpr (List.prefix_append _ _)
  have hdrop : (key.val ++ bytes).drop 32 = bytes :=
    List.drop_left' key.property
  simp only [cipher, hprefix, if_true, hdrop]

theorem env_healthy : env.Healthy := ⟨fun _ => rfl, rfl, fun _ => rfl⟩

/-- One call of the database fails. -/
def failing (call : DbCall) : Env :=
  { env with fault := fun c => if c = call then some (.store "fault") else none }

def startEnv : StartEnv where
  creation := env
  createChild := none
  recovery := env
  tell := none
  firstSnapshot := env

theorem startEnv_healthy : startEnv.Healthy :=
  ⟨env_healthy, rfl, env_healthy, rfl, env_healthy⟩

theorem platform_roundTrips : platform.RoundTrips :=
  ⟨codec_roundTrips, cipher_roundTrips⟩

/-- The tables of an actor with these events from number 0 on. -/
def tables (events : List UInt8) (states : Option Bytes) : Tables where
  events := (events.zipIdx.map fun (e, i) =>
      (eventKey (UInt64.ofNat i), [e])).foldl
    (fun table (key, data) => table.insert key data) ∅
  states := states

end CounterActor

end Persistence
end Rush
