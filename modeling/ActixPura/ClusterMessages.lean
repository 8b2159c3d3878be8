import Mathlib

/-!
# Messages between cluster nodes

The data that nodes exchange: `node.rs`, `message/envelope.rs`, `broker.rs`, `master.rs` and the
`TransportMessage` of `transport.rs`. Integers have the width of the source, and variants stand in
the order of the source, which is the order of their numbers on the wire.
-/

namespace ActixPura

open Std (ExtTreeMap)

/-- A UUID, compared by its bytes, most significant first. -/
abbrev Uuid := Fin (2 ^ 128)

instance Uuid.neZero : NeZero (2 ^ 128) := ⟨by norm_num⟩

instance Uuid.transOrd : Std.TransOrd Uuid := inferInstance

/-- The hyphenated form, 32 digits in groups of 8, 4, 4, 4 and 12. -/
def Uuid.toString (u : Uuid) : String :=
  let digits := (Nat.toDigits 16 u).leftpad 32 '0'
  "-".intercalate [String.ofList (digits.take 8), String.ofList ((digits.drop 8).take 4),
    String.ofList ((digits.drop 12).take 4), String.ofList ((digits.drop 16).take 4),
    String.ofList (digits.drop 20)]

abbrev NodeId := Uuid

inductive NodeRole
  | master
  | worker
  | peer
  deriving DecidableEq, Repr

inductive NodeStatus
  | up
  | unreachable
  | down
  | joining
  | leaving
  deriving DecidableEq, Repr

instance SocketAddrV4.neZero : NeZero (2 ^ 32) := ⟨by norm_num⟩

/-- An address by its octets, as one number with the first octet most significant. -/
structure SocketAddrV4 where
  ip : Fin (2 ^ 32)
  port : UInt16
  deriving DecidableEq, Repr

structure SocketAddrV6 where
  ip : Fin (2 ^ 128)
  port : UInt16
  flowinfo : UInt32
  scopeId : UInt32
  deriving DecidableEq, Repr

inductive SocketAddr
  | v4 (addr : SocketAddrV4)
  | v6 (addr : SocketAddrV6)
  deriving DecidableEq, Repr

/-- The number types of `serde_json`; a float by its bits. -/
inductive JsonNumber
  | posInt (n : UInt64)
  | negInt (n : Int64)
  | float (bits : UInt64)

/-- A JSON value; the entries of an object stand in the order of their keys. -/
inductive JsonValue
  | null
  | bool (b : Bool)
  | number (n : JsonNumber)
  | string (s : String)
  | array (items : List JsonValue)
  | object (entries : List (String × JsonValue))

structure NodeInfo where
  id : NodeId
  name : String
  role : NodeRole
  addr : SocketAddr
  status : NodeStatus
  joinedAt : Option UInt64
  capabilities : List String
  load : UInt8
  metadata : ExtTreeMap String JsonValue compare

def NodeInfo.new (id : NodeId) (name : String) (role : NodeRole) (addr : SocketAddr) :
    NodeInfo where
  id := id
  name := name
  role := role
  addr := addr
  status := .joining
  joinedAt := none
  capabilities := []
  load := 0
  metadata := ∅

def NodeInfo.addMetadata (info : NodeInfo) (key : String) (value : JsonValue) : NodeInfo :=
  { info with metadata := info.metadata.insert key value }

inductive MessageType
  | actorMessage
  | systemControl
  | discovery
  | ping
  | pong
  | custom (name : String)
  deriving DecidableEq, Repr

inductive DeliveryGuarantee
  | atMostOnce
  | atLeastOnce
  | exactlyOnce
  deriving DecidableEq, Repr

structure MessageEnvelope where
  messageId : Uuid
  senderNode : NodeId
  targetNode : NodeId
  targetActor : String
  timestamp : UInt64
  messageType : MessageType
  deliveryGuarantee : DeliveryGuarantee
  payload : List UInt8
  compressed : Bool
  deriving DecidableEq

structure BrokerMessage where
  topic : String
  payload : List UInt8
  id : Uuid
  sourceNode : NodeId
  timestamp : UInt64
  sequence : UInt64
  deliveryGuarantee : DeliveryGuarantee
  deriving DecidableEq

structure MessageAck where
  messageId : Uuid
  topic : String
  nodeId : NodeId
  timestamp : UInt64
  deriving DecidableEq

structure SubscriptionOptions where
  deliveryGuarantee : DeliveryGuarantee
  bufferSize : UInt64
  persistent : Bool
  ttl : Option UInt64

structure MasterState where
  masterId : NodeId
  backupMasters : List NodeId
  lastUpdate : UInt64
  version : UInt64

structure ElectionMessage where
  candidateId : NodeId
  priority : UInt32
  round : UInt64
  deriving DecidableEq

inductive TransportMessage
  | actorMessage (envelope : MessageEnvelope)
  | brokerMessage (message : BrokerMessage)
  | heartbeat (info : NodeInfo)
  | election (message : ElectionMessage)
  | masterState (state : MasterState)
  | statusUpdate (nodeId : NodeId) (status : String)
  | ack (messageId : Uuid)
  | close
  | handshake (info : NodeInfo)
  | actorDiscoveryRequest (nodeId : NodeId) (path : String)
  | actorDiscoveryResponse (path : String) (nodes : List NodeId)
  | brokerSubscribe (topic : String) (nodeId : NodeId) (options : SubscriptionOptions)
  | brokerUnsubscribe (topic : String) (nodeId : NodeId)
  | brokerAck (ack : MessageAck)
  | subscribe (topic : String) (options : SubscriptionOptions)
  | envelope (envelope : MessageEnvelope)
  | consensus (data : List UInt8)

end ActixPura
