import ActixPura.Bincode

/-!
# Serializers

`serialization.rs`. A serializer writes and reads values whose type is only known at run time.
Nothing on the wire says which type was written, so reading tries the supported types one after the
other: an envelope, a transport message, a string and an integer of 32 bits.

For bincode the attempt to read a transport message as an envelope always fails, because the first
8 bytes would have to be the length of a UUID. What is read is therefore decided by the transport
message itself: it comes back unchanged unless it describes a node with metadata, which cannot be
read, or with an IPv6 address whose flow information or scope are lost.
-/

namespace ActixPura

open Codec

inductive ClusterError
  | serializationError (message : String)
  | deserializationError (message : String)
  | compressionError (message : String)
  | decompressionError (message : String)
  | connectionFailed (message : String)
  | nodeNotFound (id : NodeId)
  | messageSendFailed (message : String)
  | networkError (message : String)
  | unknownPeer (id : NodeId)
  | actorNotFound (path : String)
  | actorAlreadyRegistered (path : String)
  | invalidOperation (message : String)
  | noNodesAvailable
  | protocolError (message : String)
  | transportError (message : String)
  deriving DecidableEq

def ClusterError.toString : ClusterError → String
  | .serializationError message => s!"Serialization error: {message}"
  | .deserializationError message => s!"Deserialization error: {message}"
  | .compressionError message => s!"Compression error: {message}"
  | .decompressionError message => s!"Decompression error: {message}"
  | .connectionFailed message => s!"Connection failed: {message}"
  | .nodeNotFound id => s!"Node not found: {Uuid.toString id}"
  | .messageSendFailed message => s!"Message send failed: {message}"
  | .networkError message => s!"Network error: {message}"
  | .unknownPeer id => s!"Unknown peer: {Uuid.toString id}"
  | .actorNotFound path => s!"Actor not found: {path}"
  | .actorAlreadyRegistered path => s!"Actor already registered: {path}"
  | .invalidOperation message => s!"Invalid operation: {message}"
  | .noNodesAvailable => "No nodes available"
  | .protocolError message => s!"Protocol error: {message}"
  | .transportError message => s!"Transport error: {message}"

/-- A `dyn Any` by its type; `other` is a value of a type that no serializer supports. -/
inductive AnyValue
  | string (s : String)
  | i32 (n : Int32)
  | envelope (e : MessageEnvelope)
  | transport (m : TransportMessage)
  | other

structure SerializerTrait where
  serializeAny : AnyValue → Except ClusterError Bytes
  deserializeAny : Bytes → Except ClusterError AnyValue

/-- A format by what it writes for each supported type, and what it reads as each of them. -/
structure Format where
  writeString : String → Except ClusterError Bytes
  writeI32 : Int32 → Except ClusterError Bytes
  writeEnvelope : MessageEnvelope → Except ClusterError Bytes
  writeTransport : TransportMessage → Except ClusterError Bytes
  readString : Bytes → Option String
  readI32 : Bytes → Option Int32
  readEnvelope : Bytes → Option MessageEnvelope
  readTransport : Bytes → Option TransportMessage

/-- The type-erased serializer that `BincodeSerializer` and `JsonSerializer` share. -/
def Format.untagged (f : Format) : SerializerTrait where
  serializeAny
    | .string s => f.writeString s
    | .i32 n => f.writeI32 n
    | .envelope e => f.writeEnvelope e
    | .transport m => f.writeTransport m
    | .other => .error (.serializationError "Unsupported type for serialization")
  deserializeAny bs :=
    match f.readEnvelope bs with
    | some e => .ok (.envelope e)
    | none =>
      match f.readTransport bs with
      | some m => .ok (.transport m)
      | none =>
        match f.readString bs with
        | some s => .ok (.string s)
        | none =>
          match f.readI32 bs with
          | some n => .ok (.i32 n)
          | none => .error (.deserializationError "Unsupported type for deserialization")

theorem Format.untagged_transport_iff {f : Format} {bs : Bytes} (h : f.readEnvelope bs = none)
    (m : TransportMessage) :
    f.untagged.deserializeAny bs = .ok (.transport m) ↔ f.readTransport bs = some m := by
  simp only [untagged, h]
  cases f.readTransport bs with
  | some m' => simp
  | none =>
      cases f.readString bs with
      | some s => simp
      | none => cases f.readI32 bs <;> simp

theorem Format.untagged_ne_transport {f : Format} {bs : Bytes} (h : f.readTransport bs = none)
    (m : TransportMessage) : f.untagged.deserializeAny bs ≠ .ok (.transport m) := by
  cases he : f.readEnvelope bs with
  | some e => simp [untagged, he]
  | none =>
      rw [Ne, untagged_transport_iff he, h]
      simp

def bincodeFormat : Format where
  writeString s := .ok (string.encode s)
  writeI32 n := .ok (i32.encode n)
  writeEnvelope e := .ok (Bincode.messageEnvelope.encode e)
  writeTransport m := .ok (Bincode.transportMessage.encode m)
  readString := string.read
  readI32 := i32.read
  readEnvelope := Bincode.messageEnvelope.read
  readTransport := Bincode.transportMessage.read

def bincodeSerializer : SerializerTrait := bincodeFormat.untagged

/-! ## An envelope is not a transport message -/

namespace Bincode

/-- A UUID is only read behind the length 16, and with as many bytes behind it. -/
theorem uuid_decode_eq_none {bs : Bytes}
    (h : 8 ≤ bs.length → ofLE (bs.take 8) = 16 → bs.length < 24) : uuid.decode bs = none := by
  simp only [uuid, Codec.conv, bytes, fixed, readExact]
  by_cases hlen : 8 ≤ bs.length
  · simp only [if_pos hlen, Option.map_some, Option.bind_some, List.length_drop]
    split_ifs with hrest
    · have hne : ofLE (bs.take 8) ≠ 16 := fun heq => by
        have hshort := h hlen heq
        omega
      rw [Option.bind_some, if_neg, Option.map_none]
      rwa [List.length_take, List.length_drop, min_eq_left hrest]
    · rfl
  · simp only [if_neg hlen, Option.map_none, Option.bind_none]

theorem messageEnvelope_decode_eq_none {bs : Bytes} (h : uuid.decode bs = none) :
    messageEnvelope.decode bs = none := by
  simp only [messageEnvelope, Codec.conv, Codec.pair, h, Option.bind_none]

/-- The first 8 bytes of a message are its number and 4 bytes of its payload. -/
theorem ofLE_take_encode (m : TransportMessage) : ofLE ((transportMessage.encode m).take 8) =
    tag m + 256 ^ 4 * ofLE ((payload m).take 4) := by
  have htag : tag m < 256 ^ 4 := by cases m <;> norm_num [tag]
  have htake : (transportMessage.encode m).take 8 = leBytes 4 (tag m) ++ (payload m).take 4 := by
    simp only [transportMessage, tagged]
    rw [List.take_append, length_leBytes, List.take_of_length_le (by simp)]
  rw [htake, ofLE_append, length_leBytes, ofLE_leBytes htag]

theorem tag_eq_sixteen {m : TransportMessage} (h : tag m = 16) : ∃ data, m = .consensus data := by
  cases m <;> simp [tag] at h
  exact ⟨_, rfl⟩

/-- Only the number of a consensus message is 16, and an empty one is too short for a UUID. -/
theorem messageEnvelope_rejects {m : TransportMessage}
    (hlen : (transportMessage.encode m).length < 2 ^ 32) :
    messageEnvelope.decode (transportMessage.encode m) = none := by
  refine messageEnvelope_decode_eq_none (uuid_decode_eq_none fun _ hsixteen => ?_)
  rw [ofLE_take_encode] at hsixteen
  have htag : tag m ≤ 16 := by cases m <;> norm_num [tag]
  obtain ⟨data, rfl⟩ := tag_eq_sixteen (m := m) (by omega)
  rw [length_transportMessage] at hlen ⊢
  simp only [payload, bytes, List.length_append, length_leBytes] at hlen ⊢
  have hcount : ofLE ((payload (.consensus data)).take 4) = data.length := by
    simp only [payload, bytes]
    rw [List.take_append, length_leBytes, take_leBytes (by decide)]
    simp only [Nat.reduceSub, List.take_zero, List.append_nil]
    exact ofLE_leBytes (by omega)
  rw [hcount] at hsixteen
  simp only [tag] at hsixteen
  omega

end Bincode

/-- The first attempt fails, and the later ones yield no transport message. -/
theorem bincode_deserializeAny_iff {m : TransportMessage}
    (hlen : (Bincode.transportMessage.encode m).length < 2 ^ 32) :
    bincodeSerializer.deserializeAny (Bincode.transportMessage.encode m) = .ok (.transport m) ↔
      Bincode.Portable m := by
  have henvelope : Bincode.messageEnvelope.read (Bincode.transportMessage.encode m) = none := by
    rw [Codec.read, Bincode.messageEnvelope_rejects hlen, Option.map_none]
  rw [← Bincode.read_eq_self_iff (by omega)]
  exact Format.untagged_transport_iff henvelope m

/-- A transport message is written, and read back as itself, exactly when it is portable. -/
theorem bincode_untagged_iff (m : TransportMessage)
    (hlen : (Bincode.transportMessage.encode m).length < 2 ^ 32) :
    (∃ bs, bincodeSerializer.serializeAny (.transport m) = .ok bs ∧
      bincodeSerializer.deserializeAny bs = .ok (.transport m)) ↔ Bincode.Portable m := by
  rw [← bincode_deserializeAny_iff hlen]
  constructor
  · rintro ⟨bs, hbs, hread⟩
    obtain rfl := Except.ok.inj hbs
    exact hread
  · intro hread
    exact ⟨_, rfl, hread⟩

def plainNode : NodeInfo := .new 1 "n" .worker (.v4 ⟨0x7f000001, 8080⟩)

/-- A worker with one entry of metadata. -/
def labelledNode : NodeInfo := plainNode.addMetadata "zone" (.string "a")

theorem bincode_untagged_plain :
    (Bincode.transportMessage.encode (.handshake plainNode)).length < 2 ^ 32 ∧
      ∃ bs, bincodeSerializer.serializeAny (.transport (.handshake plainNode)) = .ok bs ∧
        bincodeSerializer.deserializeAny bs = .ok (.transport (.handshake plainNode)) := by
  have hlen : (Bincode.transportMessage.encode (.handshake plainNode)).length < 2 ^ 32 := by
    decide +kernel
  refine ⟨hlen, (bincode_untagged_iff (.handshake plainNode) hlen).mpr fun info hinfo => ?_⟩
  obtain rfl := Option.some.inj hinfo
  exact ⟨rfl, rfl⟩

/-- The handshake of a node with metadata is read as the integer 8, the number of its variant. -/
theorem not_bincode_untagged :
    ¬ ∀ m : TransportMessage, (Bincode.transportMessage.encode m).length < 2 ^ 32 →
      ∃ bs, bincodeSerializer.serializeAny (.transport m) = .ok bs ∧
        bincodeSerializer.deserializeAny bs = .ok (.transport m) := by
  intro h
  obtain ⟨bs, hbs, hread⟩ := h (.handshake labelledNode) (by decide +kernel)
  obtain rfl := Except.ok.inj hbs
  have hint : (match bincodeSerializer.deserializeAny
      (Bincode.transportMessage.encode (.handshake labelledNode)) with
      | .ok (.i32 n) => n == 8
      | _ => false) = true := by decide +kernel
  rw [hread] at hint
  exact absurd hint (by decide)

end ActixPura
