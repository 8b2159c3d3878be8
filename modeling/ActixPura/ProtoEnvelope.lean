import ActixPura.Serialization

/-!
# Protocol buffer envelopes

`proto/mod.rs` and the schema `proto/messages.proto`. Envelopes and the two transport messages that
carry one are converted field by field to the generated types and back. Identifiers become text,
the two enumerations become numbers, and the name of a custom type has a field of its own. The
schema has no field for `compressed`, and the way back sets it to `false`.

Reading an identifier is a parameter: `Uuid::parse_str` belongs to another crate.
-/

namespace ActixPura

open Std (ExtTreeMap)

structure ProtoMessageEnvelope where
  messageId : String
  senderActor : String
  targetActor : String
  senderNode : String
  targetNode : String
  messageType : Int32
  payload : List UInt8
  timestamp : UInt64
  ttl : UInt64
  deliveryGuarantee : Int32
  correlationId : String
  customType : String
  headers : ExtTreeMap String String compare

/-- The variants of `oneof message`. What the messages without an envelope hold is never read. -/
inductive ProtoMessage
  | actorMessage (envelope : ProtoMessageEnvelope)
  | brokerMessage
  | heartbeat
  | election
  | masterState
  | statusUpdate
  | ack
  | close
  | handshake
  | actorDiscoveryRequest
  | actorDiscoveryResponse
  | brokerSubscribe
  | brokerUnsubscribe
  | brokerAck
  | subscribe
  | envelope (envelope : ProtoMessageEnvelope)
  | consensus

structure ProtoTransportMessage where
  message : Option ProtoMessage

namespace MessageType

def toI32 : MessageType → Int32
  | .actorMessage => 0
  | .systemControl => 1
  | .discovery => 2
  | .ping => 3
  | .pong => 4
  | .custom _ => 5

def ofI32 (value : Int32) : MessageType :=
  match value with
  | 0 => .actorMessage
  | 1 => .systemControl
  | 2 => .discovery
  | 3 => .ping
  | 4 => .pong
  | 5 => .custom ""
  | _ => .actorMessage

/-- The name that goes into the field `custom_type`. -/
def customType : MessageType → String
  | .custom name => name
  | _ => ""

/-- The type with the name read from `custom_type`. -/
def withCustomType (messageType : MessageType) (name : String) : MessageType :=
  match messageType with
  | .custom _ => .custom name
  | _ => messageType

theorem ofI32_toI32 (messageType : MessageType) :
    (ofI32 messageType.toI32).withCustomType messageType.customType = messageType := by
  cases messageType <;> rfl

end MessageType

namespace DeliveryGuarantee

def toI32 : DeliveryGuarantee → Int32
  | .atMostOnce => 0
  | .atLeastOnce => 1
  | .exactlyOnce => 2

def ofI32 (value : Int32) : DeliveryGuarantee :=
  match value with
  | 0 => .atMostOnce
  | 1 => .atLeastOnce
  | 2 => .exactlyOnce
  | _ => .atMostOnce

theorem ofI32_toI32 (guarantee : DeliveryGuarantee) : ofI32 guarantee.toI32 = guarantee := by
  cases guarantee <;> rfl

end DeliveryGuarantee

def ProtoMessageEnvelope.tryFrom (envelope : MessageEnvelope) :
    Except ClusterError ProtoMessageEnvelope :=
  .ok {
    messageId := Uuid.toString envelope.messageId
    senderActor := ""
    targetActor := envelope.targetActor
    senderNode := Uuid.toString envelope.senderNode
    targetNode := Uuid.toString envelope.targetNode
    messageType := envelope.messageType.toI32
    payload := envelope.payload
    timestamp := envelope.timestamp
    ttl := 0
    deliveryGuarantee := envelope.deliveryGuarantee.toI32
    correlationId := ""
    customType := envelope.messageType.customType
    headers := ∅ }

def ProtoTransportMessage.tryFrom (message : TransportMessage) :
    Except ClusterError ProtoTransportMessage :=
  match message with
  | .actorMessage envelope => do
    let proto ← ProtoMessageEnvelope.tryFrom envelope
    return ⟨some (.actorMessage proto)⟩
  | .envelope envelope => do
    let proto ← ProtoMessageEnvelope.tryFrom envelope
    return ⟨some (.envelope proto)⟩
  | _ => .error (.serializationError "Unsupported message type")

section Reading

variable (parseStr : String → Except String Uuid)

/-- An identifier, or the error that names what could not be read. -/
def parseIdentifier (what text : String) : Except ClusterError Uuid :=
  match parseStr text with
  | .ok id => .ok id
  | .error e => .error (.deserializationError s!"Invalid {what}: {e}")

def MessageEnvelope.tryFrom (proto : ProtoMessageEnvelope) :
    Except ClusterError MessageEnvelope := do
  let messageId ← parseIdentifier parseStr "UUID" proto.messageId
  let senderNode ← parseIdentifier parseStr "sender node ID" proto.senderNode
  let targetNode ← parseIdentifier parseStr "target node ID" proto.targetNode
  return {
    messageId := messageId
    senderNode := senderNode
    targetNode := targetNode
    targetActor := proto.targetActor
    timestamp := proto.timestamp
    messageType := (MessageType.ofI32 proto.messageType).withCustomType proto.customType
    deliveryGuarantee := DeliveryGuarantee.ofI32 proto.deliveryGuarantee
    payload := proto.payload
    compressed := false }

def TransportMessage.tryFrom (proto : ProtoTransportMessage) :
    Except ClusterError TransportMessage :=
  match proto.message with
  | some (.actorMessage e) => do
    let e ← MessageEnvelope.tryFrom parseStr e
    return .actorMessage e
  | some (.envelope e) => do
    let e ← MessageEnvelope.tryFrom parseStr e
    return .envelope e
  | _ => .error (.deserializationError "Unsupported message type")

def MessageEnvelope.viaProto (e : MessageEnvelope) : Except ClusterError MessageEnvelope := do
  let proto ← ProtoMessageEnvelope.tryFrom e
  MessageEnvelope.tryFrom parseStr proto

def TransportMessage.viaProto (m : TransportMessage) : Except ClusterError TransportMessage := do
  let proto ← ProtoTransportMessage.tryFrom m
  TransportMessage.tryFrom parseStr proto

/-- The identifiers of the envelope are read back from their text. -/
structure ParsesBack (e : MessageEnvelope) : Prop where
  messageId : parseStr (Uuid.toString e.messageId) = .ok e.messageId
  senderNode : parseStr (Uuid.toString e.senderNode) = .ok e.senderNode
  targetNode : parseStr (Uuid.toString e.targetNode) = .ok e.targetNode

variable {parseStr}

theorem parseIdentifier_of_ok {text : String} {id : Uuid} (h : parseStr text = .ok id)
    (what : String) : parseIdentifier parseStr what text = .ok id := by
  simp only [parseIdentifier, h]

/-- Only the flag can differ. -/
theorem MessageEnvelope.viaProto_eq {e : MessageEnvelope} (h : ParsesBack parseStr e) :
    e.viaProto parseStr = .ok { e with compressed := false } := by
  change MessageEnvelope.tryFrom parseStr _ = _
  unfold MessageEnvelope.tryFrom
  simp only [parseIdentifier_of_ok h.messageId, parseIdentifier_of_ok h.senderNode,
    parseIdentifier_of_ok h.targetNode, MessageType.ofI32_toI32, DeliveryGuarantee.ofI32_toI32]
  rfl

theorem MessageEnvelope.compressed_of_viaProto {e e' : MessageEnvelope}
    (h : e.viaProto parseStr = .ok e') : e'.compressed = false := by
  change MessageEnvelope.tryFrom parseStr _ = _ at h
  unfold MessageEnvelope.tryFrom at h
  generalize parseIdentifier parseStr "UUID" _ = messageId at h
  generalize parseIdentifier parseStr "sender node ID" _ = senderNode at h
  generalize parseIdentifier parseStr "target node ID" _ = targetNode at h
  cases messageId with
  | error _ => cases h
  | ok _ =>
      cases senderNode with
      | error _ => cases h
      | ok _ =>
          cases targetNode with
          | error _ => cases h
          | ok _ =>
              cases h
              rfl

theorem TransportMessage.viaProto_actorMessage (e : MessageEnvelope) :
    (TransportMessage.actorMessage e).viaProto parseStr =
      (e.viaProto parseStr).map .actorMessage := rfl

theorem TransportMessage.viaProto_envelope (e : MessageEnvelope) :
    (TransportMessage.envelope e).viaProto parseStr = (e.viaProto parseStr).map .envelope := rfl

theorem MessageEnvelope.viaProto_iff {e : MessageEnvelope} (h : ParsesBack parseStr e) :
    e.viaProto parseStr = .ok e ↔ e.compressed = false := by
  constructor
  · exact compressed_of_viaProto
  · intro hraw
    rw [viaProto_eq h, ← hraw]

/-- An envelope comes back from its protocol buffer form, alone and inside both transport messages,
exactly when it is not marked as compressed; the two transport messages are never confused. -/
theorem proto_round_trip_iff (e : MessageEnvelope) (h : ParsesBack parseStr e) :
    (e.viaProto parseStr = .ok e ↔ e.compressed = false) ∧
      ((TransportMessage.actorMessage e).viaProto parseStr = .ok (.actorMessage e) ↔
        e.compressed = false) ∧
      ((TransportMessage.envelope e).viaProto parseStr = .ok (.envelope e) ↔
        e.compressed = false) ∧
      (∀ e', (TransportMessage.actorMessage e).viaProto parseStr ≠ .ok (.envelope e')) ∧
      ∀ e', (TransportMessage.envelope e).viaProto parseStr ≠ .ok (.actorMessage e') := by
  have hiff := MessageEnvelope.viaProto_iff h
  rw [MessageEnvelope.viaProto_eq h] at hiff
  rw [TransportMessage.viaProto_actorMessage, TransportMessage.viaProto_envelope,
    MessageEnvelope.viaProto_eq h]
  simp only [Except.map, Except.ok.injEq] at hiff ⊢
  refine ⟨hiff, ?_, ?_, ?_, ?_⟩
  · rw [TransportMessage.actorMessage.injEq, hiff]
  · rw [TransportMessage.envelope.injEq, hiff]
  · intro e'
    simp
  · intro e'
    simp

end Reading

/-- The value of a text of hexadecimal digits and hyphens. -/
def parseHyphenated (text : String) : Except String Uuid :=
  let digits := (text.toList.filter (· ≠ '-')).map fun c =>
    if c.isDigit then c.toNat - '0'.toNat else c.toNat - 'a'.toNat + 10
  .ok (Fin.ofNat (2 ^ 128) (digits.foldl (fun n d => 16 * n + d) 0))

def customEnvelope (compressed : Bool) : MessageEnvelope :=
  ⟨0xab, 1, 2, "/user/target", 7, .custom "TestCustomType", .atLeastOnce, [1, 2, 3, 4], compressed⟩

theorem parsesBack_customEnvelope : ParsesBack parseHyphenated (customEnvelope false) :=
  ⟨by decide +kernel, by decide +kernel, by decide +kernel⟩

theorem custom_round_trip : ParsesBack parseHyphenated (customEnvelope false) ∧
    (customEnvelope false).viaProto parseHyphenated = .ok (customEnvelope false) :=
  ⟨parsesBack_customEnvelope,
    (proto_round_trip_iff _ parsesBack_customEnvelope).1.mpr rfl⟩

/-- Whatever reads the identifiers, a compressed envelope loses its mark. -/
theorem not_proto_round_trip : ¬ ∃ parseStr : String → Except String Uuid,
    (customEnvelope true).viaProto parseStr = .ok (customEnvelope true) := by
  rintro ⟨parseStr, h⟩
  have hraw := MessageEnvelope.compressed_of_viaProto h
  simp [customEnvelope] at hraw

end ActixPura
