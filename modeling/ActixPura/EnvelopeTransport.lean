import ActixPura.Transport

/-!
# Sending messages and envelopes

`send_message` and `send_envelope` of `transport.rs` with `compression.rs`, and the serializers that
a transport is configured with. The configured serializer reads what a peer receives and writes what
`send_message` sends. `send_envelope` writes with a bincode serializer of its own and compresses the
result if the compression configuration asks for it, which agrees with the reader only for plain
bincode without compression and for compressed bincode with compression.

`serde_json`, `prost` and `flate2` are parameters. `Documented` says what is used of them: a text
that starts with a control character is no JSON, a first key with the wire type 6 or 7 is no
protobuf message, and gzip data start with their magic number and decompress to what was
compressed.
-/

namespace ActixPura

open Std (ExtTreeMap ExtTreeSet)

inductive SerializationFormat
  | bincode
  | json
  | protobuf
  | compressedBincode
  | compressedJson
  | compressedProtobuf
  deriving DecidableEq, Repr

inductive CompressionLevel
  | none
  | fast
  | default
  | best
  deriving DecidableEq, Repr

inductive CompressionAlgorithm
  | gzip
  deriving DecidableEq, Repr

structure CompressionConfig where
  enabled : Bool
  algorithm : CompressionAlgorithm
  level : CompressionLevel
  minSizeThreshold : ℕ
  deriving DecidableEq, Repr

def CompressionConfig.shouldCompress (config : CompressionConfig) (dataSize : ℕ) : Bool :=
  config.enabled && decide (config.minSizeThreshold ≤ dataSize)

/-- The code of other crates. Protobuf is read by decoding with `prost` and converting the
result. -/
structure Libraries where
  json : Format
  protoWriteEnvelope : MessageEnvelope → Except ClusterError Bytes
  protoWriteTransport : TransportMessage → Except ClusterError Bytes
  protoReadEnvelope : Bytes → Option MessageEnvelope
  protoReadTransport : Bytes → Option TransportMessage
  gzip : CompressionLevel → Bytes → Except String Bytes
  gunzip : Bytes → Except String Bytes

namespace Libraries

variable (L : Libraries)

def compress (data : Bytes) (algorithm : CompressionAlgorithm) (level : CompressionLevel) :
    Except ClusterError Bytes :=
  match algorithm with
  | .gzip => (L.gzip level data).mapError .compressionError

def decompress (data : Bytes) (algorithm : CompressionAlgorithm) : Except ClusterError Bytes :=
  match algorithm with
  | .gzip => (L.gunzip data).mapError .decompressionError

/-- The data to send and whether they are compressed; the statistics are left out. -/
def autoCompress (data : Bytes) (config : CompressionConfig) :
    Except ClusterError (Bytes × Bool) :=
  if config.shouldCompress data.length then
    match L.compress data config.algorithm config.level with
    | .error e => .error e
    | .ok compressed =>
      if compressed.length < data.length then .ok (compressed, true) else .ok (data, false)
  else .ok (data, false)

def jsonSerializer : SerializerTrait := L.json.untagged

def protobufSerializer : SerializerTrait where
  serializeAny
    | .envelope e => L.protoWriteEnvelope e
    | .transport m => L.protoWriteTransport m
    | value => L.jsonSerializer.serializeAny value
  deserializeAny bs :=
    match L.protoReadEnvelope bs with
    | some e => .ok (.envelope e)
    | none =>
      match L.protoReadTransport bs with
      | some m => .ok (.transport m)
      | none => L.jsonSerializer.deserializeAny bs

def compressedSerializer (inner : SerializerTrait) (algorithm : CompressionAlgorithm)
    (level : CompressionLevel) : SerializerTrait where
  serializeAny value :=
    match inner.serializeAny value with
    | .error e => .error e
    | .ok bytes => L.compress bytes algorithm level
  deserializeAny bs :=
    match L.decompress bs algorithm with
    | .error e => .error e
    | .ok decompressed => inner.deserializeAny decompressed

/-- The serializer that `P2PTransport::new` chooses. -/
def serializerFor : SerializationFormat → SerializerTrait
  | .json => L.jsonSerializer
  | .bincode => bincodeSerializer
  | .protobuf => L.protobufSerializer
  | .compressedBincode => L.compressedSerializer bincodeSerializer .gzip .default
  | .compressedJson => L.compressedSerializer L.jsonSerializer .gzip .default
  | .compressedProtobuf => L.compressedSerializer L.protobufSerializer .gzip .default

end Libraries

structure P2PTransport where
  localNode : NodeInfo
  peers : ExtTreeMap NodeId NodeInfo compare
  serializer : SerializerTrait
  compressionConfig : Option CompressionConfig
  connections : ExtTreeSet NodeId compare

namespace P2PTransport

def new (L : Libraries) (localNode : NodeInfo) (format : SerializationFormat) : P2PTransport where
  localNode := localNode
  peers := ∅
  serializer := L.serializerFor format
  compressionConfig := none
  connections := ∅

/-- `writes` answers with the outcome of the two calls of `write_all`. -/
def sendMessage (t : P2PTransport) (writes : ℕ → Except String Unit) (nodeId : NodeId)
    (message : TransportMessage) : Except ClusterError Bytes :=
  if t.connections.contains nodeId then
    match t.serializer.serializeAny (.transport message) with
    | .error e => .error e
    | .ok serialized =>
      match writes 0 with
      | .error e => .error (.networkError s!"Failed to write message length: {e}")
      | .ok () =>
        match writes 1 with
        | .error e => .error (.networkError s!"Failed to write message: {e}")
        | .ok () => .ok (beBytes 4 serialized.length ++ serialized)
  else .error (.unknownPeer nodeId)

/-- The data of `send_envelope` after the optional compression. -/
def compressed (L : Libraries) (config : Option CompressionConfig) (data : Bytes) : Bytes :=
  match config with
  | none => data
  | some config =>
    if config.shouldCompress data.length then
      match L.autoCompress data config with
      | .ok (compressedData, wasCompressed) => if wasCompressed then compressedData else data
      | .error _ => data
    else data

/-- `connect_to_peer` answers with the connections there are afterwards. -/
def sendEnvelope (L : Libraries) (t : P2PTransport)
    (connectToPeer : SocketAddr → Except ClusterError (ExtTreeSet NodeId compare))
    (writes : ℕ → Except String Unit) (envelope : MessageEnvelope) : Except ClusterError Bytes :=
  let target := envelope.targetNode
  let connected : Except ClusterError (ExtTreeSet NodeId compare) :=
    if t.connections.contains target then .ok t.connections
    else
      match t.peers[target]? with
      | none => .error (.nodeNotFound target)
      | some peer =>
        match connectToPeer peer.addr with
        | .error e => .error (.connectionFailed
            s!"Failed to connect to node {Uuid.toString target}: {e.toString}")
        | .ok connections => .ok connections
  match connected with
  | .error e => .error e
  | .ok connections =>
    if connections.contains target then
      match bincodeFormat.writeTransport (.envelope envelope) with
      | .error e => .error (.serializationError s!"Failed to serialize message: {e.toString}")
      | .ok data =>
        let serialized := compressed L t.compressionConfig data
        match writes 0 with
        | .error e => .error (.messageSendFailed
            s!"Failed to send message length to node {Uuid.toString target}: {e}")
        | .ok () =>
          match writes 1 with
          | .error e => .error (.messageSendFailed
              s!"Failed to send message payload to node {Uuid.toString target}: {e}")
          | .ok () => .ok (beBytes 4 serialized.length ++ serialized)
    else .error (.nodeNotFound target)

/-- The configuration asks for compression, and it makes the data shorter. -/
def Shrinks (L : Libraries) (config : Option CompressionConfig) (data : Bytes) : Prop :=
  ∃ c ∈ config, c.shouldCompress data.length = true ∧
    ∃ z, L.compress data c.algorithm c.level = .ok z ∧ z.length < data.length

theorem compressed_of_shrinks {L : Libraries} {config : Option CompressionConfig} {data : Bytes}
    (h : Shrinks L config data) : ∃ level z, L.gzip level data = .ok z ∧
      z.length < data.length ∧ compressed L config data = z := by
  obtain ⟨c, rfl, hshould, z, hz, hlt⟩ := h
  have hgzip : L.gzip c.level data = .ok z := by
    cases hg : L.gzip c.level data <;> simp_all [Libraries.compress, Except.mapError]
  exact ⟨c.level, z, hgzip, hlt, by simp [compressed, Libraries.autoCompress, hshould, hz, hlt]⟩

theorem compressed_of_not_shrinks {L : Libraries} {config : Option CompressionConfig}
    {data : Bytes} (h : ¬ Shrinks L config data) : compressed L config data = data := by
  cases config with
  | none => rfl
  | some c =>
      simp only [compressed, Libraries.autoCompress]
      cases hshould : c.shouldCompress data.length with
      | false => rfl
      | true =>
          cases hz : L.compress data c.algorithm c.level with
          | error e => simp
          | ok z =>
              have hge : ¬ z.length < data.length := fun hlt => h ⟨c, rfl, hshould, z, hz, hlt⟩
              simp [hge]

/-- A successful call writes one frame. -/
theorem sendEnvelope_eq_ok {L : Libraries} {t : P2PTransport}
    {connectToPeer : SocketAddr → Except ClusterError (ExtTreeSet NodeId compare)}
    {writes : ℕ → Except String Unit} {envelope : MessageEnvelope} {bs : Bytes}
    (h : sendEnvelope L t connectToPeer writes envelope = .ok bs) :
    bs = frame 4 (compressed L t.compressionConfig
      (Bincode.transportMessage.encode (.envelope envelope))) := by
  simp only [sendEnvelope, bincodeFormat] at h
  split at h
  · simp at h
  · split_ifs at h
    split at h
    · simp at h
    · split at h
      · simp at h
      · exact (Except.ok.inj h).symm

end P2PTransport

/-! ## Which serializer reads the frame -/

/-- What is documented of the other crates. -/
structure Libraries.Documented (L : Libraries) : Prop where
  json_control : ∀ (b : UInt8) (bs : Bytes), b < 0x20 → b ∉ [0x09, 0x0a, 0x0d] →
    L.json.readEnvelope (b :: bs) = none ∧ L.json.readTransport (b :: bs) = none ∧
      L.json.readString (b :: bs) = none ∧ L.json.readI32 (b :: bs) = none
  proto_wireType : ∀ (b : UInt8) (bs : Bytes), 6 ≤ b.toNat % 8 →
    L.protoReadEnvelope (b :: bs) = none ∧ L.protoReadTransport (b :: bs) = none
  gzip_magic : ∀ level data z, L.gzip level data = .ok z → ∃ bs, z = 0x1f :: 0x8b :: bs
  gunzip_magic : ∀ bs data, L.gunzip bs = .ok data → ∃ rest, bs = 0x1f :: 0x8b :: rest
  gunzip_gzip : ∀ level data z, L.gzip level data = .ok z → L.gunzip z = .ok data

namespace Libraries

variable {L : Libraries} (hL : L.Documented)

include hL

theorem json_rejects {b : UInt8} (bs : Bytes) (hb : b < 0x20) (hspace : b ∉ [0x09, 0x0a, 0x0d])
    (m : TransportMessage) : L.jsonSerializer.deserializeAny (b :: bs) ≠ .ok (.transport m) := by
  obtain ⟨henvelope, htransport, hstring, hi32⟩ := hL.json_control b bs hb hspace
  simp [jsonSerializer, Format.untagged, henvelope, htransport, hstring, hi32]

theorem protobuf_rejects {b : UInt8} (bs : Bytes) (hb : b < 0x20)
    (hspace : b ∉ [0x09, 0x0a, 0x0d]) (hwire : 6 ≤ b.toNat % 8) (m : TransportMessage) :
    L.protobufSerializer.deserializeAny (b :: bs) ≠ .ok (.transport m) := by
  obtain ⟨henvelope, htransport⟩ := hL.proto_wireType b bs hwire
  simp only [protobufSerializer, henvelope, htransport]
  exact json_rejects hL bs hb hspace m

/-- A compressing serializer reads what was compressed with its inner serializer. -/
theorem compressed_of_gzip {level : CompressionLevel} {data z : Bytes}
    (hz : L.gzip level data = .ok z) (inner : SerializerTrait) (level' : CompressionLevel) :
    (L.compressedSerializer inner .gzip level').deserializeAny z = inner.deserializeAny data := by
  simp [compressedSerializer, decompress, hL.gunzip_gzip level data z hz, Except.mapError]

theorem compressed_rejects {b : UInt8} (bs : Bytes) (hb : b ≠ 0x1f) (inner : SerializerTrait)
    (level : CompressionLevel) (m : TransportMessage) :
    (L.compressedSerializer inner .gzip level).deserializeAny (b :: bs) ≠ .ok (.transport m) := by
  cases hg : L.gunzip (b :: bs) with
  | error e => simp [compressedSerializer, decompress, hg, Except.mapError]
  | ok data =>
      obtain ⟨rest, hrest⟩ := hL.gunzip_magic _ _ hg
      exact absurd (List.cons.inj hrest).1 hb

omit hL in
/-- The magic number of gzip is no variant of a transport message. -/
theorem bincode_rejects_gzip (bs : Bytes) (m : TransportMessage) :
    bincodeSerializer.deserializeAny (0x1f :: 0x8b :: bs) ≠ .ok (.transport m) := by
  refine Format.untagged_ne_transport ?_ m
  have hdecode : Bincode.transportMessage.decode (0x1f :: 0x8b :: bs) = none := by
    simp only [Bincode.transportMessage, Codec.tagged, Codec.fixed, readExact]
    split_ifs
    · rw [Option.map_some, Option.bind_some]
      refine Bincode.variants_of_lt ?_ _
      simp only [List.take_succ_cons, ofLE]
      have hbytes : UInt8.toNat 0x1f = 31 ∧ UInt8.toNat 0x8b = 139 := by decide
      omega
    · rfl
  change (Bincode.transportMessage.decode _).map Prod.fst = none
  rw [hdecode, Option.map_none]

end Libraries

namespace P2PTransport

/-- An envelope starts with the number 15 of its variant, which is neither whitespace nor the start
of a JSON text, of a protobuf message or of gzip data. -/
theorem encode_envelope (envelope : MessageEnvelope) :
    ∃ bs, Bincode.transportMessage.encode (.envelope envelope) = 0x0f :: bs :=
  ⟨_, rfl⟩

theorem bincode_reads_envelope {envelope : MessageEnvelope}
    (hlen : (Bincode.transportMessage.encode (.envelope envelope)).length < 2 ^ 32) :
    bincodeSerializer.deserializeAny (Bincode.transportMessage.encode (.envelope envelope)) =
      .ok (.transport (.envelope envelope)) := by
  refine (bincode_deserializeAny_iff hlen).mpr fun info hinfo => ?_
  simp [Bincode.describes] at hinfo

/-- Uncompressed data are read by plain bincode only. -/
theorem serializerFor_plain_iff {L : Libraries} (hL : L.Documented) (format : SerializationFormat)
    {envelope : MessageEnvelope}
    (hlen : (Bincode.transportMessage.encode (.envelope envelope)).length < 2 ^ 32) :
    (L.serializerFor format).deserializeAny
        (Bincode.transportMessage.encode (.envelope envelope)) =
      .ok (.transport (.envelope envelope)) ↔ format = .bincode := by
  have hreads := bincode_reads_envelope hlen
  obtain ⟨bs, hbs⟩ := encode_envelope envelope
  rw [hbs] at hreads ⊢
  cases format with
  | bincode => exact iff_of_true hreads rfl
  | json => exact iff_of_false (Libraries.json_rejects hL bs (by decide) (by decide) _) (by decide)
  | protobuf =>
      exact iff_of_false (Libraries.protobuf_rejects hL bs (by decide) (by decide) (by decide) _)
        (by decide)
  | compressedBincode =>
      exact iff_of_false (Libraries.compressed_rejects hL bs (by decide) _ _ _) (by decide)
  | compressedJson =>
      exact iff_of_false (Libraries.compressed_rejects hL bs (by decide) _ _ _) (by decide)
  | compressedProtobuf =>
      exact iff_of_false (Libraries.compressed_rejects hL bs (by decide) _ _ _) (by decide)

/-- Compressed data are read by compressed bincode only. -/
theorem serializerFor_gzip_iff {L : Libraries} (hL : L.Documented) (format : SerializationFormat)
    {envelope : MessageEnvelope} {level : CompressionLevel} {z : Bytes}
    (hlen : (Bincode.transportMessage.encode (.envelope envelope)).length < 2 ^ 32)
    (hz : L.gzip level (Bincode.transportMessage.encode (.envelope envelope)) = .ok z) :
    (L.serializerFor format).deserializeAny z = .ok (.transport (.envelope envelope)) ↔
      format = .compressedBincode := by
  have hreads := bincode_reads_envelope hlen
  have hinner := Libraries.compressed_of_gzip hL hz
  obtain ⟨bs, hbs⟩ := encode_envelope envelope
  obtain ⟨rest, rfl⟩ := hL.gzip_magic _ _ _ hz
  rw [hbs] at hreads hinner
  cases format with
  | bincode => exact iff_of_false (Libraries.bincode_rejects_gzip rest _) (by decide)
  | json =>
      exact iff_of_false (Libraries.json_rejects hL _ (by decide) (by decide) _) (by decide)
  | protobuf =>
      exact iff_of_false (Libraries.protobuf_rejects hL _ (by decide) (by decide) (by decide) _)
        (by decide)
  | compressedBincode => exact iff_of_true ((hinner _ _).trans hreads) rfl
  | compressedJson =>
      refine iff_of_false (fun h => ?_) (by decide)
      exact Libraries.json_rejects hL bs (by decide) (by decide) _ ((hinner _ _).symm.trans h)
  | compressedProtobuf =>
      refine iff_of_false (fun h => ?_) (by decide)
      exact Libraries.protobuf_rejects hL bs (by decide) (by decide) (by decide) _
        ((hinner _ _).symm.trans h)

theorem sendMessage_eq_ok {t : P2PTransport} {writes : ℕ → Except String Unit} {nodeId : NodeId}
    {message : TransportMessage} {bs : Bytes} (h : t.sendMessage writes nodeId message = .ok bs) :
    ∃ p, t.serializer.serializeAny (.transport message) = .ok p ∧ bs = frame 4 p := by
  unfold sendMessage at h
  split_ifs at h
  cases hp : t.serializer.serializeAny (.transport message) with
  | error e => simp [hp] at h
  | ok p =>
      simp only [hp] at h
      split at h
      · simp at h
      · split at h
        · simp at h
        · exact ⟨p, rfl, (Except.ok.inj h).symm⟩

/-- What one frame is read as. -/
theorem frame_delivered_iff (receiver : Incoming) (peers : ExtTreeMap NodeId NodeInfo compare)
    (connections : ExtTreeSet NodeId compare) {p : Bytes} (hp : p.length < 2 ^ 32)
    (message : TransportMessage) :
    (receiver.handleIncoming (frame 4 p) peers connections).messages = [message] ↔
      receiver.serializer.deserializeAny p = .ok (.transport message) := by
  rw [Incoming.handleIncoming_frame hp, ← Incoming.decoded_eq_some_iff]
  cases receiver.decoded p <;> simp

/-- Between two peers that use bincode, `send_message` delivers exactly the portable messages. -/
theorem message_delivered_iff {sender : P2PTransport} {writes : ℕ → Except String Unit}
    {nodeId : NodeId} {message : TransportMessage} {bs : Bytes} {receiver : Incoming}
    (hsender : sender.serializer = bincodeSerializer)
    (hreceiver : receiver.serializer = bincodeSerializer)
    (hlen : (Bincode.transportMessage.encode message).length < 2 ^ 32)
    (hsend : sender.sendMessage writes nodeId message = .ok bs)
    (peers : ExtTreeMap NodeId NodeInfo compare) (connections : ExtTreeSet NodeId compare) :
    (receiver.handleIncoming bs peers connections).messages = [message] ↔
      Bincode.Portable message := by
  obtain ⟨p, hp, rfl⟩ := sendMessage_eq_ok hsend
  rw [hsender] at hp
  obtain rfl := Except.ok.inj hp
  rw [frame_delivered_iff receiver peers connections hlen, hreceiver,
    bincode_deserializeAny_iff hlen]

/-- The frame of an envelope is read as that envelope exactly when the format is plain bincode and
the frame is not compressed, or the format is compressed bincode and the frame is compressed. -/
theorem envelope_delivered_iff {L : Libraries} (hL : L.Documented) (format : SerializationFormat)
    (sender : P2PTransport)
    (connectToPeer : SocketAddr → Except ClusterError (ExtTreeSet NodeId compare))
    (writes : ℕ → Except String Unit) (envelope : MessageEnvelope) (bs : Bytes)
    (hlen : (Bincode.transportMessage.encode (.envelope envelope)).length < 2 ^ 32)
    (hsend : sendEnvelope L sender connectToPeer writes envelope = .ok bs)
    (receiver : Incoming) (hreceiver : receiver.serializer = L.serializerFor format)
    (peers : ExtTreeMap NodeId NodeInfo compare) (connections : ExtTreeSet NodeId compare) :
    (receiver.handleIncoming bs peers connections).messages = [.envelope envelope] ↔
      (format = .bincode ∧ ¬ Shrinks L sender.compressionConfig
        (Bincode.transportMessage.encode (.envelope envelope))) ∨
      (format = .compressedBincode ∧ Shrinks L sender.compressionConfig
        (Bincode.transportMessage.encode (.envelope envelope))) := by
  have hread {p : Bytes} (hp : p.length < 2 ^ 32) :=
    frame_delivered_iff receiver peers connections hp (.envelope envelope)
  obtain rfl := sendEnvelope_eq_ok hsend
  by_cases hshrinks : Shrinks L sender.compressionConfig
      (Bincode.transportMessage.encode (.envelope envelope))
  · obtain ⟨level, z, hz, hlt, hcompressed⟩ := compressed_of_shrinks hshrinks
    rw [hcompressed, hread (by omega), hreceiver, serializerFor_gzip_iff hL format hlen hz]
    simp [hshrinks]
  · rw [compressed_of_not_shrinks hshrinks, hread hlen, hreceiver,
      serializerFor_plain_iff hL format hlen]
    simp [hshrinks]

/-- Libraries that read no JSON and no protobuf, and whose gzip only stores the data. -/
def storingLibraries : Libraries where
  json :=
    { writeString := fun s => .ok s.toByteArray.data.toList
      writeI32 := fun n => .ok (toString n.toInt).toByteArray.data.toList
      writeEnvelope := fun _ => .error (.serializationError "unsupported")
      writeTransport := fun _ => .error (.serializationError "unsupported")
      readString := fun _ => none
      readI32 := fun _ => none
      readEnvelope := fun _ => none
      readTransport := fun _ => none }
  protoWriteEnvelope := fun _ => .error (.serializationError "unsupported")
  protoWriteTransport := fun _ => .error (.serializationError "unsupported")
  protoReadEnvelope := fun _ => none
  protoReadTransport := fun _ => none
  gzip := fun _ data => .ok (0x1f :: 0x8b :: data)
  gunzip
    | 0x1f :: 0x8b :: data => .ok data
    | _ => .error "invalid gzip header"

theorem storingLibraries_documented : storingLibraries.Documented where
  json_control := fun _ _ _ _ => ⟨rfl, rfl, rfl, rfl⟩
  proto_wireType := fun _ _ _ => ⟨rfl, rfl⟩
  gzip_magic := fun _ data z hz => ⟨data, (Except.ok.inj hz).symm⟩
  gunzip_magic := fun bs data h => by
    simp only [storingLibraries] at h
    split at h
    · exact ⟨_, rfl⟩
    · simp at h
  gunzip_gzip := fun _ data z hz => by
    obtain rfl := Except.ok.inj hz
    rfl

/-- A node that is connected to node 2. -/
def connectedNode (format : SerializationFormat) : P2PTransport :=
  { new storingLibraries plainNode format with
    connections := (∅ : ExtTreeSet NodeId compare).insert 2 }

def listening (format : SerializationFormat) : Incoming where
  localNodeInfo := .new 2 "b" .worker (.v4 ⟨0x7f000001, 8081⟩)
  serializer := storingLibraries.serializerFor format
  hasHandler := true
  writes := fun _ => true

def ping : MessageEnvelope := ⟨3, 1, 2, "system", 0, .ping, .atMostOnce, [], false⟩

theorem ping_delivered :
    storingLibraries.Documented ∧
      (Bincode.transportMessage.encode (.envelope ping)).length < 2 ^ 32 ∧
      ∃ bs, sendEnvelope storingLibraries (connectedNode .bincode) (fun _ => .ok ∅)
          (fun _ => .ok ()) ping = .ok bs ∧
        ((listening .bincode).handleIncoming bs ∅ ∅).messages = [.envelope ping] := by
  have hlen : (Bincode.transportMessage.encode (.envelope ping)).length < 2 ^ 32 := by
    decide +kernel
  refine ⟨storingLibraries_documented, hlen, _, rfl, ?_⟩
  refine (envelope_delivered_iff storingLibraries_documented .bincode (connectedNode .bincode)
    (fun _ => .ok ∅) (fun _ => .ok ()) ping _ hlen rfl (listening .bincode) rfl ∅ ∅).mpr ?_
  exact Or.inl ⟨rfl, fun ⟨c, hc, _⟩ => by simp [connectedNode, new] at hc⟩

/-- The envelope is written as bincode, but the peer reads JSON. -/
theorem not_envelope_delivered : ¬ ∀ (L : Libraries), L.Documented →
    ∀ (format : SerializationFormat) (sender : P2PTransport)
      (connectToPeer : SocketAddr → Except ClusterError (ExtTreeSet NodeId compare))
      (writes : ℕ → Except String Unit) (envelope : MessageEnvelope) (bs : Bytes),
    sender.serializer = L.serializerFor format →
    (Bincode.transportMessage.encode (.envelope envelope)).length < 2 ^ 32 →
    sendEnvelope L sender connectToPeer writes envelope = .ok bs →
    ∀ receiver : Incoming, receiver.serializer = L.serializerFor format →
      (receiver.handleIncoming bs ∅ ∅).messages = [.envelope envelope] := by
  intro h
  have hall := h storingLibraries storingLibraries_documented .json (connectedNode .json)
    (fun _ => .ok ∅) (fun _ => .ok ()) ping _ rfl (by decide +kernel) rfl (listening .json) rfl
  have hcount := congrArg List.length hall
  exact absurd hcount (by decide +kernel)

end P2PTransport

end ActixPura
