import ActixPura.ByteCodec
import ActixPura.ClusterMessages

/-!
# The bincode encoding of cluster messages

The encoding that `bincode` 1.x gives to the derived `serde` implementations: records are their
fields one after the other, enumerations a number of 4 bytes and the fields of the variant. A UUID
is a byte string of length 16. Three types are not derived. A socket address has its octets and its
port, so the flow information and the scope of an IPv6 address are dropped. A JSON map is written
with its values, but a JSON value can only be read from a self-describing format, so that only the
empty map can be read.
-/

namespace ActixPura

open Codec Std

namespace Bincode

def uuid : Codec Uuid := bytes.conv (fun u => beBytes 16 u) fun bs =>
  if bs.length = 16 then some (Fin.ofNat _ (ofBE bs)) else none

def socketAddrV4 : Codec SocketAddrV4 :=
  ((octets 4).pair u16).conv (fun a => (a.ip, a.port)) fun (ip, port) => some ⟨Fin.ofNat _ ip, port⟩

def socketAddrV6 : Codec SocketAddrV6 :=
  ((octets 16).pair u16).conv (fun a => (a.ip, a.port)) fun (ip, port) =>
    some ⟨Fin.ofNat _ ip, port, 0, 0⟩

def socketAddr : Codec SocketAddr := tagged
  (fun
    | .v4 _ => 0
    | .v6 _ => 1)
  (fun
    | .v4 addr => socketAddrV4.encode addr
    | .v6 addr => socketAddrV6.encode addr)
  fun
    | 0 => variant socketAddrV4 .v4
    | 1 => variant socketAddrV6 .v6
    | _ => fun _ => none

/-- An enumeration without fields, given by its variants in order. -/
def unitEnum {α : Type} [DecidableEq α] (variants : List α) : Codec α :=
  (fixed 4).conv (fun a => variants.idxOf a) fun n => variants[n]?

def nodeRole : Codec NodeRole := unitEnum [.master, .worker, .peer]

def nodeStatus : Codec NodeStatus := unitEnum [.up, .unreachable, .down, .joining, .leaving]

def deliveryGuarantee : Codec DeliveryGuarantee :=
  unitEnum [.atMostOnce, .atLeastOnce, .exactlyOnce]

def messageType : Codec MessageType := tagged
  (fun
    | .actorMessage => 0
    | .systemControl => 1
    | .discovery => 2
    | .ping => 3
    | .pong => 4
    | .custom _ => 5)
  (fun
    | .custom name => string.encode name
    | _ => [])
  fun
    | 0 => fun bs => some (.actorMessage, bs)
    | 1 => fun bs => some (.systemControl, bs)
    | 2 => fun bs => some (.discovery, bs)
    | 3 => fun bs => some (.ping, bs)
    | 4 => fun bs => some (.pong, bs)
    | 5 => variant string .custom
    | _ => fun _ => none

def jsonNumber : JsonNumber → Bytes
  | .posInt n => u64.encode n
  | .negInt n => u64.encode n.toUInt64
  | .float bits => u64.encode bits

mutual

def jsonValue : JsonValue → Bytes
  | .null => []
  | .bool b => bool.encode b
  | .number n => jsonNumber n
  | .string s => string.encode s
  | .array items => leBytes 8 items.length ++ jsonItems items
  | .object entries => leBytes 8 entries.length ++ jsonEntries entries

def jsonItems : List JsonValue → Bytes
  | [] => []
  | item :: items => jsonValue item ++ jsonItems items

def jsonEntries : List (String × JsonValue) → Bytes
  | [] => []
  | (key, value) :: entries => string.encode key ++ jsonValue value ++ jsonEntries entries

end

/-- The first entry of a map needs a JSON value, which cannot be read. -/
def jsonMap : Codec (ExtTreeMap String JsonValue compare) where
  encode m := leBytes 8 m.size ++ jsonEntries m.toList
  decode bs := ((fixed 8).decode bs).bind fun r => if r.1 = 0 then some (∅, r.2) else none

def nodeInfo : Codec NodeInfo :=
  (uuid.pair <| string.pair <| nodeRole.pair <| socketAddr.pair <| nodeStatus.pair <|
    u64.option.pair <| string.list.pair <| u8.pair jsonMap).conv
  (fun i => (i.id, i.name, i.role, i.addr, i.status, i.joinedAt, i.capabilities, i.load,
    i.metadata))
  fun (id, name, role, addr, status, joinedAt, capabilities, load, metadata) =>
    some ⟨id, name, role, addr, status, joinedAt, capabilities, load, metadata⟩

def messageEnvelope : Codec MessageEnvelope :=
  (uuid.pair <| uuid.pair <| uuid.pair <| string.pair <| u64.pair <| messageType.pair <|
    deliveryGuarantee.pair <| bytes.pair bool).conv
  (fun e => (e.messageId, e.senderNode, e.targetNode, e.targetActor, e.timestamp, e.messageType,
    e.deliveryGuarantee, e.payload, e.compressed))
  fun (messageId, senderNode, targetNode, targetActor, timestamp, messageType, guarantee, payload,
      compressed) =>
    some ⟨messageId, senderNode, targetNode, targetActor, timestamp, messageType, guarantee,
      payload, compressed⟩

def brokerMessage : Codec BrokerMessage :=
  (string.pair <| bytes.pair <| uuid.pair <| uuid.pair <| u64.pair <| u64.pair
    deliveryGuarantee).conv
  (fun b => (b.topic, b.payload, b.id, b.sourceNode, b.timestamp, b.sequence,
    b.deliveryGuarantee))
  fun (topic, payload, id, sourceNode, timestamp, sequence, guarantee) =>
    some ⟨topic, payload, id, sourceNode, timestamp, sequence, guarantee⟩

def messageAck : Codec MessageAck :=
  (uuid.pair <| string.pair <| uuid.pair u64).conv
  (fun a => (a.messageId, a.topic, a.nodeId, a.timestamp))
  fun (messageId, topic, nodeId, timestamp) => some ⟨messageId, topic, nodeId, timestamp⟩

def subscriptionOptions : Codec SubscriptionOptions :=
  (deliveryGuarantee.pair <| u64.pair <| bool.pair u64.option).conv
  (fun o => (o.deliveryGuarantee, o.bufferSize, o.persistent, o.ttl))
  fun (guarantee, bufferSize, persistent, ttl) => some ⟨guarantee, bufferSize, persistent, ttl⟩

def masterState : Codec MasterState :=
  (uuid.pair <| uuid.list.pair <| u64.pair u64).conv
  (fun m => (m.masterId, m.backupMasters, m.lastUpdate, m.version))
  fun (masterId, backupMasters, lastUpdate, version) =>
    some ⟨masterId, backupMasters, lastUpdate, version⟩

def electionMessage : Codec ElectionMessage :=
  (uuid.pair <| u32.pair u64).conv (fun e => (e.candidateId, e.priority, e.round))
  fun (candidateId, priority, round) => some ⟨candidateId, priority, round⟩

/-- The number of a variant. -/
def tag : TransportMessage → ℕ
  | .actorMessage _ => 0
  | .brokerMessage _ => 1
  | .heartbeat _ => 2
  | .election _ => 3
  | .masterState _ => 4
  | .statusUpdate _ _ => 5
  | .ack _ => 6
  | .close => 7
  | .handshake _ => 8
  | .actorDiscoveryRequest _ _ => 9
  | .actorDiscoveryResponse _ _ => 10
  | .brokerSubscribe _ _ _ => 11
  | .brokerUnsubscribe _ _ => 12
  | .brokerAck _ => 13
  | .subscribe _ _ => 14
  | .envelope _ => 15
  | .consensus _ => 16

def payload : TransportMessage → Bytes
  | .actorMessage e => messageEnvelope.encode e
  | .brokerMessage b => brokerMessage.encode b
  | .heartbeat info => nodeInfo.encode info
  | .election e => electionMessage.encode e
  | .masterState s => masterState.encode s
  | .statusUpdate nodeId status => (uuid.pair string).encode (nodeId, status)
  | .ack messageId => uuid.encode messageId
  | .close => []
  | .handshake info => nodeInfo.encode info
  | .actorDiscoveryRequest nodeId path => (uuid.pair string).encode (nodeId, path)
  | .actorDiscoveryResponse path nodes => (string.pair uuid.list).encode (path, nodes)
  | .brokerSubscribe topic nodeId options =>
    (string.pair <| uuid.pair subscriptionOptions).encode (topic, nodeId, options)
  | .brokerUnsubscribe topic nodeId => (string.pair uuid).encode (topic, nodeId)
  | .brokerAck a => messageAck.encode a
  | .subscribe topic options => (string.pair subscriptionOptions).encode (topic, options)
  | .envelope e => messageEnvelope.encode e
  | .consensus data => bytes.encode data

def variants : ℕ → Bytes → Option (TransportMessage × Bytes)
  | 0 => variant messageEnvelope .actorMessage
  | 1 => variant brokerMessage .brokerMessage
  | 2 => variant nodeInfo .heartbeat
  | 3 => variant electionMessage .election
  | 4 => variant masterState .masterState
  | 5 => variant (uuid.pair string) fun (nodeId, status) => .statusUpdate nodeId status
  | 6 => variant uuid .ack
  | 7 => fun bs => some (.close, bs)
  | 8 => variant nodeInfo .handshake
  | 9 => variant (uuid.pair string) fun (nodeId, path) => .actorDiscoveryRequest nodeId path
  | 10 => variant (string.pair uuid.list) fun (path, nodes) => .actorDiscoveryResponse path nodes
  | 11 => variant (string.pair <| uuid.pair subscriptionOptions) fun (topic, nodeId, options) =>
      .brokerSubscribe topic nodeId options
  | 12 => variant (string.pair uuid) fun (topic, nodeId) => .brokerUnsubscribe topic nodeId
  | 13 => variant messageAck .brokerAck
  | 14 => variant (string.pair subscriptionOptions) fun (topic, options) =>
      .subscribe topic options
  | 15 => variant messageEnvelope .envelope
  | 16 => variant bytes .consensus
  | _ => fun _ => none

theorem variants_of_lt {n : ℕ} (h : 16 < n) (bs : Bytes) : variants n bs = none := by
  unfold variants
  split <;> first | omega | rfl

def transportMessage : Codec TransportMessage := tagged tag payload variants

/-! ## What is read back -/

/-- An address as it is read back. -/
def wireAddr : SocketAddr → SocketAddr
  | .v4 addr => .v4 addr
  | .v6 addr => .v6 { addr with flowinfo := 0, scopeId := 0 }

/-- A node without metadata as it is read back. -/
def wireInfo (info : NodeInfo) : NodeInfo := { info with addr := wireAddr info.addr }

theorem reads_uuid (u : Uuid) : uuid.Reads u u := by
  have hlt : u.val < 256 ^ 16 := u.isLt
  refine (reads_bytes _).conv ?_
  rw [if_pos (length_beBytes 16 _), ofBE_beBytes hlt, Fin.ofNat_val_eq_self]

theorem reads_socketAddrV4 (addr : SocketAddrV4) : socketAddrV4.Reads addr addr := by
  have hlt : addr.ip.val < 256 ^ 4 := addr.ip.isLt
  refine Reads.conv (b := addr) ((reads_octets hlt).pair (reads_u16 addr.port)) ?_
  simp only [Fin.ofNat_val_eq_self]

theorem reads_socketAddrV6 (addr : SocketAddrV6) :
    socketAddrV6.Reads addr { addr with flowinfo := 0, scopeId := 0 } := by
  have hlt : addr.ip.val < 256 ^ 16 := addr.ip.isLt
  refine Reads.conv (b := addr) ((reads_octets hlt).pair (reads_u16 addr.port)) ?_
  simp only [Fin.ofNat_val_eq_self]

theorem reads_socketAddr (addr : SocketAddr) : socketAddr.Reads addr (wireAddr addr) := by
  intro hlen rest
  cases addr with
  | v4 a =>
      rw [socketAddr, decode_tagged (by norm_num)]
      exact (reads_socketAddrV4 a).variant _ (by simp [socketAddr, tagged] at hlen ⊢; omega) rest
  | v6 a =>
      rw [socketAddr, decode_tagged (by norm_num)]
      exact (reads_socketAddrV6 a).variant _ (by simp [socketAddr, tagged] at hlen ⊢; omega) rest

theorem reads_unitEnum {α : Type} [DecidableEq α] {variants : List α} {a : α} (ha : a ∈ variants)
    (hcount : variants.length < 256 ^ 4) : (unitEnum variants).Reads a a := by
  have hlt : variants.idxOf a < variants.length := List.idxOf_lt_length_of_mem ha
  refine (reads_fixed (by omega)).conv ?_
  rw [List.getElem?_eq_getElem hlt, List.getElem_idxOf]

theorem reads_messageType (t : MessageType) : messageType.Reads t t := by
  intro hlen rest
  cases t with
  | custom name =>
      rw [messageType, decode_tagged (by norm_num)]
      exact (reads_string name).variant _ (by simp [messageType, tagged] at hlen ⊢; omega) rest
  | actorMessage => rw [messageType, decode_tagged (by decide)]; rfl
  | systemControl => rw [messageType, decode_tagged (by decide)]; rfl
  | discovery => rw [messageType, decode_tagged (by decide)]; rfl
  | ping => rw [messageType, decode_tagged (by decide)]; rfl
  | pong => rw [messageType, decode_tagged (by decide)]; rfl

theorem jsonMap_decode (m : ExtTreeMap String JsonValue compare)
    (hsize : m.size < 2 ^ 64) (rest : Bytes) : jsonMap.decode (jsonMap.encode m ++ rest) =
      if m.size = 0 then some (∅, jsonEntries m.toList ++ rest) else none := by
  have hfixed := reads_fixed (k := 8) (n := m.size) (by omega) (by simp [fixed])
    (jsonEntries m.toList ++ rest)
  simp only [jsonMap, List.append_assoc]
  rw [show leBytes 8 m.size = (fixed 8).encode m.size from rfl, hfixed, Option.bind_some]

theorem reads_jsonMap_empty : jsonMap.Reads ∅ ∅ := by
  intro _ rest
  rw [jsonMap_decode ∅ (by simp) rest, if_pos (by simp),
    ExtTreeMap.toList_eq_nil_iff.mpr rfl]
  rfl

theorem length_le_jsonEntries (entries : List (String × JsonValue)) :
    entries.length ≤ (jsonEntries entries).length := by
  induction entries with
  | nil => exact Nat.zero_le _
  | cons e es ih =>
      have hkey : 0 < (string.encode e.1).length := by simp [string, Codec.conv, bytes]
      rw [jsonEntries, List.length_append, List.length_append, List.length_cons]
      omega

theorem rejects_jsonMap {m : ExtTreeMap String JsonValue compare} (h : m ≠ ∅) :
    jsonMap.Rejects m := by
  intro hlen rest
  have hentries := length_le_jsonEntries m.toList
  rw [ExtTreeMap.length_toList] at hentries
  simp only [jsonMap, List.length_append, length_leBytes] at hlen
  rw [jsonMap_decode m (by omega) rest, if_neg]
  intro hsize
  exact h (ExtTreeMap.eq_empty_iff_size_eq_zero.mpr hsize)

theorem reads_strings (ss : List String) : string.list.Reads ss ss :=
  reads_list (fun s _ => reads_string s) fun s _ => by simp [string, Codec.conv, bytes]

theorem reads_uuids (us : List Uuid) : uuid.list.Reads us us :=
  reads_list (fun u _ => reads_uuid u) fun u _ => by simp [uuid, Codec.conv, bytes]

theorem reads_nodeRole (r : NodeRole) : nodeRole.Reads r r :=
  reads_unitEnum (by cases r <;> decide) (by decide)

theorem reads_nodeStatus (s : NodeStatus) : nodeStatus.Reads s s :=
  reads_unitEnum (by cases s <;> decide) (by decide)

theorem reads_deliveryGuarantee (g : DeliveryGuarantee) : deliveryGuarantee.Reads g g :=
  reads_unitEnum (by cases g <;> decide) (by decide)

theorem reads_nodeInfo {info : NodeInfo} (h : info.metadata = ∅) :
    nodeInfo.Reads info (wireInfo info) := by
  have hmap : jsonMap.Reads info.metadata ∅ := h ▸ reads_jsonMap_empty
  refine Reads.conv (b := info) ((reads_uuid _).pair <| (reads_string _).pair <|
    (reads_nodeRole _).pair <| (reads_socketAddr _).pair <| (reads_nodeStatus _).pair <|
    (reads_option fun a _ => reads_u64 a).pair <| (reads_strings _).pair <|
    (reads_u8 _).pair hmap) ?_
  simp only [wireInfo, h]

theorem rejects_nodeInfo {info : NodeInfo} (h : info.metadata ≠ ∅) : nodeInfo.Rejects info :=
  Rejects.conv (b := info) <| (reads_uuid _).pair_rejects <| (reads_string _).pair_rejects <|
    (reads_nodeRole _).pair_rejects <| (reads_socketAddr _).pair_rejects <|
    (reads_nodeStatus _).pair_rejects <|
    (reads_option fun a _ => reads_u64 a).pair_rejects <| (reads_strings _).pair_rejects <|
    (reads_u8 _).pair_rejects (rejects_jsonMap h)

theorem reads_messageEnvelope (e : MessageEnvelope) : messageEnvelope.Reads e e :=
  Reads.conv (b := e) ((reads_uuid _).pair <| (reads_uuid _).pair <| (reads_uuid _).pair <|
    (reads_string _).pair <| (reads_u64 _).pair <| (reads_messageType _).pair <|
    (reads_deliveryGuarantee _).pair <| (reads_bytes _).pair (reads_bool _)) rfl

theorem reads_brokerMessage (b : BrokerMessage) : brokerMessage.Reads b b :=
  Reads.conv (b := b) ((reads_string _).pair <| (reads_bytes _).pair <| (reads_uuid _).pair <|
    (reads_uuid _).pair <| (reads_u64 _).pair <| (reads_u64 _).pair
    (reads_deliveryGuarantee _)) rfl

theorem reads_messageAck (a : MessageAck) : messageAck.Reads a a :=
  Reads.conv (b := a) ((reads_uuid _).pair <| (reads_string _).pair <| (reads_uuid _).pair
    (reads_u64 _)) rfl

theorem reads_subscriptionOptions (o : SubscriptionOptions) : subscriptionOptions.Reads o o :=
  Reads.conv (b := o) ((reads_deliveryGuarantee _).pair <| (reads_u64 _).pair <|
    (reads_bool _).pair (reads_option fun a _ => reads_u64 a)) rfl

theorem reads_masterState (m : MasterState) : masterState.Reads m m :=
  Reads.conv (b := m) ((reads_uuid _).pair <| (reads_uuids _).pair <| (reads_u64 _).pair
    (reads_u64 _)) rfl

theorem reads_electionMessage (e : ElectionMessage) : electionMessage.Reads e e :=
  Reads.conv (b := e) ((reads_uuid _).pair <| (reads_u32 _).pair (reads_u64 _)) rfl

/-! ## Messages -/

/-- The node that a message describes, if it carries one. -/
def describes : TransportMessage → Option NodeInfo
  | .heartbeat info => some info
  | .handshake info => some info
  | _ => none

/-- A described node has no metadata, and an address without flow information and scope. -/
def Portable (m : TransportMessage) : Prop :=
  ∀ info ∈ describes m, info.metadata = ∅ ∧ wireAddr info.addr = info.addr

theorem decode_transportMessage (m : TransportMessage) :
    transportMessage.decode (transportMessage.encode m) = variants (tag m) (payload m) := by
  have htag : tag m < 256 ^ 4 := by cases m <;> norm_num [tag]
  have h := @decode_tagged _ tag payload variants m htag []
  rwa [List.append_nil, List.append_nil] at h

theorem length_transportMessage (m : TransportMessage) :
    (transportMessage.encode m).length = 4 + (payload m).length := by
  simp [transportMessage, tagged]

/-- What `Reads` says of a payload that nothing follows. -/
theorem variant_payload {β : Type} {c : Codec β} {b b' : β} (h : c.Reads b b')
    (mk : β → TransportMessage) (hlen : (c.encode b).length < 2 ^ 64) :
    variant c mk (c.encode b) = some (mk b', []) := by
  simpa only [List.append_nil] using h.variant mk hlen []

/-- A message that describes no node is read back as it is. -/
theorem variants_of_describes_none {m : TransportMessage} (h : describes m = none)
    (hlen : (payload m).length < 2 ^ 64) : variants (tag m) (payload m) = some (m, []) := by
  cases m with
  | actorMessage e => exact variant_payload (reads_messageEnvelope e) _ hlen
  | brokerMessage b => exact variant_payload (reads_brokerMessage b) _ hlen
  | heartbeat info => simp [describes] at h
  | election e => exact variant_payload (reads_electionMessage e) _ hlen
  | masterState s => exact variant_payload (reads_masterState s) _ hlen
  | statusUpdate nodeId status =>
      exact variant_payload ((reads_uuid nodeId).pair (reads_string status))
        (fun (nodeId, status) => .statusUpdate nodeId status) hlen
  | ack messageId => exact variant_payload (reads_uuid messageId) _ hlen
  | close => rfl
  | handshake info => simp [describes] at h
  | actorDiscoveryRequest nodeId path =>
      exact variant_payload ((reads_uuid nodeId).pair (reads_string path))
        (fun (nodeId, path) => .actorDiscoveryRequest nodeId path) hlen
  | actorDiscoveryResponse path nodes =>
      exact variant_payload ((reads_string path).pair (reads_uuids nodes))
        (fun (path, nodes) => .actorDiscoveryResponse path nodes) hlen
  | brokerSubscribe topic nodeId options =>
      exact variant_payload ((reads_string topic).pair
        ((reads_uuid nodeId).pair (reads_subscriptionOptions options)))
        (fun (topic, nodeId, options) => .brokerSubscribe topic nodeId options) hlen
  | brokerUnsubscribe topic nodeId =>
      exact variant_payload ((reads_string topic).pair (reads_uuid nodeId))
        (fun (topic, nodeId) => .brokerUnsubscribe topic nodeId) hlen
  | brokerAck a => exact variant_payload (reads_messageAck a) _ hlen
  | subscribe topic options =>
      exact variant_payload ((reads_string topic).pair (reads_subscriptionOptions options))
        (fun (topic, options) => .subscribe topic options) hlen
  | envelope e => exact variant_payload (reads_messageEnvelope e) _ hlen
  | consensus data => exact variant_payload (reads_bytes data) _ hlen

/-- A described node is read back without flow information and scope, and not at all when it has
metadata. -/
theorem variant_nodeInfo_iff (mk : NodeInfo → TransportMessage) (hmk : Function.Injective mk)
    {info : NodeInfo} (hlen : (nodeInfo.encode info).length < 2 ^ 64) :
    (variant nodeInfo mk (nodeInfo.encode info)).map Prod.fst = some (mk info) ↔
      info.metadata = ∅ ∧ wireAddr info.addr = info.addr := by
  by_cases hmeta : info.metadata = ∅
  · rw [variant_payload (reads_nodeInfo hmeta) mk hlen, and_iff_right hmeta]
    simp only [Option.map_some, Option.some.injEq, hmk.eq_iff]
    constructor
    · intro h
      exact congrArg NodeInfo.addr h
    · intro h
      rw [wireInfo, h]
  · have hnone := (rejects_nodeInfo hmeta).variant mk hlen []
    rw [List.append_nil] at hnone
    simp [hnone, hmeta]

theorem read_eq_self_iff {m : TransportMessage}
    (hlen : (transportMessage.encode m).length < 2 ^ 64) :
    transportMessage.read (transportMessage.encode m) = some m ↔ Portable m := by
  rw [length_transportMessage] at hlen
  rw [Codec.read, decode_transportMessage]
  have hpayload : (payload m).length < 2 ^ 64 := by omega
  cases hm : describes m with
  | none =>
      refine iff_of_true ?_ fun info hinfo => ?_
      · rw [variants_of_describes_none hm hpayload, Option.map_some]
      · simp [hm] at hinfo
  | some info =>
      have hportable : Portable m ↔ info.metadata = ∅ ∧ wireAddr info.addr = info.addr := by
        simp [Portable, hm]
      rw [hportable]
      cases m <;> simp only [describes, Option.some.injEq, reduceCtorEq] at hm
      · subst hm
        exact variant_nodeInfo_iff _ (fun _ _ => TransportMessage.heartbeat.inj) hpayload
      · subst hm
        exact variant_nodeInfo_iff _ (fun _ _ => TransportMessage.handshake.inj) hpayload

end Bincode

end ActixPura
