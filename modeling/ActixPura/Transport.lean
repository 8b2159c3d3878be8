import ActixPura.Framing
import ActixPura.Runs
import ActixPura.Serialization

/-!
# The reading loop of a connection

`handle_incoming` of `transport.rs`. The loop reads a length and as many bytes, passes them to
`deserialize_any` and acts on the transport message, if it is one. It ends when the peer has closed
the connection, and also when its answer to a handshake could not be serialized or written. Timeouts
are left out. The input is what the peer wrote before it closed the connection, and `writes` says
which of the calls of `write_all` on this connection succeed.

The state keeps two histories: the payloads passed to `deserialize_any` and the transport messages
that came out.
-/

namespace ActixPura

open Std (ExtTreeMap ExtTreeSet)

/-- What a call of `handle_incoming` is given. -/
structure Incoming where
  localNodeInfo : NodeInfo
  serializer : SerializerTrait
  hasHandler : Bool
  writes : ℕ → Bool

structure IncomingState where
  input : Bytes
  peerNodeId : Option NodeId
  peers : ExtTreeMap NodeId NodeInfo compare
  connections : ExtTreeSet NodeId compare
  /-- What was forwarded to the handler, with the sender it was told. -/
  handled : List (NodeId × TransportMessage)
  written : Bytes
  writeCalls : ℕ
  payloads : List Bytes
  messages : List TransportMessage
  /-- `none` while the loop is running. -/
  outcome : Option (Except ClusterError Unit)

namespace Incoming

def start (input : Bytes) (peers : ExtTreeMap NodeId NodeInfo compare)
    (connections : ExtTreeSet NodeId compare) : IncomingState where
  input := input
  peerNodeId := none
  peers := peers
  connections := connections
  handled := []
  written := []
  writeCalls := 0
  payloads := []
  messages := []
  outcome := none

variable (c : Incoming)

/-- `write_all`; the loop is left when it fails. -/
def writeAll (s : IncomingState) (bs : Bytes) : IncomingState :=
  if c.writes s.writeCalls then
    { s with written := s.written ++ bs, writeCalls := s.writeCalls + 1 }
  else { s with writeCalls := s.writeCalls + 1, outcome := some (.ok ()) }

/-- The answer to a handshake: its length, then its bytes. -/
def answerHandshake (s : IncomingState) : IncomingState :=
  match c.serializer.serializeAny (.transport (.handshake c.localNodeInfo)) with
  | .error e => { s with outcome := some (.error
      (.serializationError s!"Failed to serialize handshake: {e.toString}")) }
  | .ok serialized =>
    let s := c.writeAll s (beBytes 4 serialized.length)
    if s.outcome.isSome then s else c.writeAll s serialized

def processMessage (s : IncomingState) (message : TransportMessage) : IncomingState :=
  match message with
  | .handshake info =>
    c.answerHandshake { s with
      peers := s.peers.insert info.id info
      peerNodeId := some info.id
      connections := s.connections.insert info.id }
  | .envelope envelope =>
    if c.hasHandler then
      { s with handled := s.handled ++ [(s.peerNodeId.getD envelope.senderNode, message)] }
    else s
  | _ =>
    match c.hasHandler, s.peerNodeId with
    | true, some nodeId => { s with handled := s.handled ++ [(nodeId, message)] }
    | _, _ => s

/-- A payload that is no transport message is skipped. -/
def receive (s : IncomingState) (payload : Bytes) : IncomingState :=
  let s := { s with payloads := s.payloads ++ [payload] }
  match c.serializer.deserializeAny payload with
  | .ok (.transport message) =>
    c.processMessage { s with messages := s.messages ++ [message] } message
  | .ok _ => s
  | .error _ => s

/-- One round of the loop. -/
def round (s : IncomingState) : Option IncomingState :=
  if s.outcome.isSome then none
  else
    match readExact 4 s.input with
    | none => some { s with outcome := some (.ok ()) }
    | some (buffer, rest) =>
      match readExact (ofBE buffer) rest with
      | none => some { s with input := [], outcome := some (.ok ()) }
      | some (messageBuffer, rest) => some (c.receive { s with input := rest } messageBuffer)

/-- After the loop the connection is forgotten, unless the call has returned an error. -/
def cleanUp (s : IncomingState) : IncomingState :=
  match s.outcome, s.peerNodeId with
  | some (.ok ()), some nodeId => { s with connections := s.connections.erase nodeId }
  | _, _ => s

/-- Every round but the last two reads the 4 bytes of a length. -/
def handleIncoming (input : Bytes) (peers : ExtTreeMap NodeId NodeInfo compare)
    (connections : ExtTreeSet NodeId compare) : IncomingState :=
  cleanUp (Runs.loop c.round (input.length + 2) (start input peers connections))

/-! ## The rounds -/

variable {c}

theorem round_of_left {s : IncomingState} (h : s.outcome.isSome) : c.round s = none := by
  rw [round, if_pos h]

theorem round_eq {s : IncomingState} (h : s.outcome = none) :
    (∃ p rest, readFrame 4 s.input = some (p, rest) ∧
      c.round s = some (c.receive { s with input := rest } p)) ∨
    (readFrame 4 s.input = none ∧ ∃ input,
      c.round s = some { s with input := input, outcome := some (.ok ()) }) := by
  simp only [round, readFrame, h, Option.isSome_none, Bool.false_eq_true, if_false]
  cases hbuffer : readExact 4 s.input with
  | none => exact Or.inr ⟨rfl, s.input, rfl⟩
  | some r =>
      cases hpayload : readExact (ofBE r.1) r.2 with
      | none => exact Or.inr ⟨by simp [hpayload], [], by simp [hpayload]⟩
      | some q => exact Or.inl ⟨q.1, q.2, by simp [hpayload], by simp [hpayload]⟩

variable (c) in
/-- The transport message that a payload is read as. -/
def decoded (p : Bytes) : Option TransportMessage :=
  match c.serializer.deserializeAny p with
  | .ok (.transport m) => some m
  | _ => none

variable (c) in
def isHandshake (p : Bytes) : Bool :=
  match c.decoded p with
  | some (.handshake _) => true
  | _ => false

variable (c) in
/-- A handshake is answered when `k` calls of `write_all` were made before. -/
def answered (k : ℕ) : Bool :=
  match c.serializer.serializeAny (.transport (.handshake c.localNodeInfo)) with
  | .ok _ => c.writes k && c.writes (k + 1)
  | .error _ => false

/-- The parts of the state that acting on a message does not touch. -/
def SameReading (s s' : IncomingState) : Prop :=
  s'.input = s.input ∧ s'.payloads = s.payloads ∧ s'.messages = s.messages

theorem sameReading_writeAll (s : IncomingState) (bs : Bytes) :
    SameReading s (c.writeAll s bs) := by
  unfold writeAll
  split_ifs
  · exact ⟨rfl, rfl, rfl⟩
  · exact ⟨rfl, rfl, rfl⟩

theorem sameReading_answerHandshake (s : IncomingState) :
    SameReading s (c.answerHandshake s) := by
  unfold answerHandshake
  cases c.serializer.serializeAny (.transport (.handshake c.localNodeInfo)) with
  | error e => exact ⟨rfl, rfl, rfl⟩
  | ok serialized =>
      dsimp only
      obtain ⟨hinput, hpayloads, hmessages⟩ :=
        c.sameReading_writeAll s (beBytes 4 serialized.length)
      split_ifs
      · exact ⟨hinput, hpayloads, hmessages⟩
      · obtain ⟨hinput', hpayloads', hmessages'⟩ :=
          c.sameReading_writeAll (c.writeAll s (beBytes 4 serialized.length)) serialized
        exact ⟨hinput'.trans hinput, hpayloads'.trans hpayloads, hmessages'.trans hmessages⟩

theorem sameReading_processMessage (s : IncomingState) (m : TransportMessage) :
    SameReading s (c.processMessage s m) := by
  unfold processMessage
  split
  · exact c.sameReading_answerHandshake _
  · split_ifs <;> exact ⟨rfl, rfl, rfl⟩
  · split <;> exact ⟨rfl, rfl, rfl⟩

/-- The two writes of an answer are made, or the loop is left. -/
theorem answerHandshake_outcome (s : IncomingState) (h : s.outcome = none) :
    (c.answered s.writeCalls = true ∧ (c.answerHandshake s).outcome = none ∧
      (c.answerHandshake s).writeCalls = s.writeCalls + 2) ∨
    (c.answered s.writeCalls = false ∧ (c.answerHandshake s).outcome.isSome) := by
  unfold answerHandshake answered
  cases c.serializer.serializeAny (.transport (.handshake c.localNodeInfo)) with
  | error e => exact Or.inr ⟨rfl, rfl⟩
  | ok serialized =>
      cases hfirst : c.writes s.writeCalls with
      | false => exact Or.inr ⟨by simp, by simp [writeAll, hfirst]⟩
      | true =>
          cases hsecond : c.writes (s.writeCalls + 1) with
          | false => exact Or.inr ⟨by simp, by simp [writeAll, hfirst, hsecond, h]⟩
          | true =>
              refine Or.inl ⟨by simp, ?_, ?_⟩
              · simp [writeAll, hfirst, hsecond, h]
              · simp [writeAll, hfirst, hsecond, h]

theorem processMessage_outcome {s : IncomingState} {m : TransportMessage}
    (hm : ∀ info, m ≠ .handshake info) :
    (c.processMessage s m).outcome = s.outcome ∧
      (c.processMessage s m).writeCalls = s.writeCalls := by
  unfold processMessage
  split
  · exact absurd rfl (hm _)
  · split_ifs <;> exact ⟨rfl, rfl⟩
  · split <;> exact ⟨rfl, rfl⟩

/-- A received payload is recorded with the message it is read as, and the loop goes on unless the
message is a handshake that is not answered. -/
theorem receive_spec {s : IncomingState} (h : s.outcome = none) (p : Bytes) :
    (c.receive s p).input = s.input ∧ (c.receive s p).payloads = s.payloads ++ [p] ∧
      (c.receive s p).messages = s.messages ++ (c.decoded p).toList ∧
      ((c.isHandshake p = false ∧ (c.receive s p).outcome = none ∧
          (c.receive s p).writeCalls = s.writeCalls) ∨
        (c.isHandshake p = true ∧ c.answered s.writeCalls = true ∧
          (c.receive s p).outcome = none ∧ (c.receive s p).writeCalls = s.writeCalls + 2) ∨
        (c.isHandshake p = true ∧ c.answered s.writeCalls = false ∧
          (c.receive s p).outcome.isSome)) := by
  unfold isHandshake decoded receive
  cases hp : c.serializer.deserializeAny p with
  | error e => exact ⟨rfl, rfl, by simp, Or.inl ⟨rfl, h, rfl⟩⟩
  | ok value =>
      cases value with
      | string text => exact ⟨rfl, rfl, by simp, Or.inl ⟨rfl, h, rfl⟩⟩
      | i32 n => exact ⟨rfl, rfl, by simp, Or.inl ⟨rfl, h, rfl⟩⟩
      | envelope e => exact ⟨rfl, rfl, by simp, Or.inl ⟨rfl, h, rfl⟩⟩
      | other => exact ⟨rfl, rfl, by simp, Or.inl ⟨rfl, h, rfl⟩⟩
      | transport m =>
          dsimp only
          obtain ⟨hinput, hpayloads, hmessages⟩ := sameReading_processMessage (c := c)
            { s with payloads := s.payloads ++ [p], messages := s.messages ++ [m] } m
          refine ⟨hinput, hpayloads, by simpa using hmessages, ?_⟩
          by_cases hm : ∃ info, m = .handshake info
          · obtain ⟨info, rfl⟩ := hm
            refine Or.inr ?_
            simp only [processMessage, true_and]
            exact answerHandshake_outcome { s with
              peers := s.peers.insert info.id info
              peerNodeId := some info.id
              connections := s.connections.insert info.id
              payloads := s.payloads ++ [p]
              messages := s.messages ++ [.handshake info] } h
          · have hother : ∀ info, m ≠ .handshake info := fun info heq => hm ⟨info, heq⟩
            obtain ⟨houtcome, hcalls⟩ := processMessage_outcome (c := c) (s := { s with
              payloads := s.payloads ++ [p], messages := s.messages ++ [m] }) hother
            refine Or.inl ⟨?_, houtcome.trans h, hcalls⟩
            cases m <;> first | rfl | exact absurd rfl (hother _)

variable (c) in
/-- The payloads that are passed on when `k` calls of `write_all` were made before: all of them, up
to the first handshake that is not answered. -/
def passed : ℕ → List Bytes → List Bytes
  | _, [] => []
  | k, p :: ps =>
    if c.isHandshake p then
      if c.answered k then p :: passed (k + 2) ps else [p]
    else p :: passed k ps

theorem passed_eq_self (h : ∀ k, c.answered k = true) (k : ℕ) (ps : List Bytes) :
    c.passed k ps = ps := by
  induction ps generalizing k with
  | nil => rfl
  | cons p ps ih =>
      simp only [passed, h k, if_true, ih]
      split_ifs <;> rfl

theorem passed_eq_self_of_not_handshake {ps : List Bytes}
    (h : ∀ p ∈ ps, c.isHandshake p = false) (k : ℕ) : c.passed k ps = ps := by
  induction ps with
  | nil => rfl
  | cons p ps ih =>
      have hp := h p List.mem_cons_self
      rw [passed, if_neg (by simp [hp]), ih fun q hq => h q (List.mem_cons_of_mem _ hq)]

/-- Without a complete frame the loop is left and nothing is passed on. -/
theorem loop_of_readFrame_none {s : IncomingState} (hs : s.outcome = none)
    (hread : readFrame 4 s.input = none) {fuel : ℕ} (hfuel : 0 < fuel) :
    (Runs.loop c.round fuel s).payloads = s.payloads := by
  obtain ⟨fuel, rfl⟩ := Nat.exists_eq_add_of_le' hfuel
  rcases round_eq (c := c) hs with ⟨p, rest, hsome, _⟩ | ⟨_, input, hround⟩
  · simp [hread] at hsome
  · rw [Runs.loop_succ_of_some hround, Runs.loop_succ_of_none (round_of_left rfl)]

theorem loop_of_readFrame_some {s : IncomingState} (hs : s.outcome = none) {p rest : Bytes}
    (hread : readFrame 4 s.input = some (p, rest)) (fuel : ℕ) :
    Runs.loop c.round (fuel + 1) s =
      Runs.loop c.round fuel (c.receive { s with input := rest } p) := by
  rcases round_eq (c := c) hs with ⟨q, rest', hsome, hround⟩ | ⟨hnone, _⟩
  · rw [hread, Option.some.injEq, Prod.mk.injEq] at hsome
    obtain ⟨rfl, rfl⟩ := hsome
    exact Runs.loop_succ_of_some hround
  · simp [hread] at hnone

/-- The loop on a cut stream of frames. -/
theorem loop_payloads {ps : List Bytes} (hps : ∀ p ∈ ps, p.length < 256 ^ 4) {cut : ℕ}
    {s : IncomingState} (hs : s.outcome = none)
    (hinput : s.input = (ps.flatMap (frame 4)).take cut) {fuel : ℕ}
    (hfuel : (framesWithin 4 ps cut).length < fuel) :
    (Runs.loop c.round fuel s).payloads =
      s.payloads ++ c.passed s.writeCalls (framesWithin 4 ps cut) := by
  induction ps generalizing cut s fuel with
  | nil =>
      have hread : readFrame 4 s.input = none := by
        rw [hinput, List.flatMap_nil, List.take_nil]
        rfl
      rw [loop_of_readFrame_none hs hread (Nat.zero_lt_of_lt hfuel), framesWithin, passed,
        List.append_nil]
  | cons p ps ih =>
      have hp := hps p List.mem_cons_self
      have hrest : ∀ q ∈ ps, q.length < 256 ^ 4 := fun q hq => hps q (List.mem_cons_of_mem _ hq)
      rw [List.flatMap_cons] at hinput
      by_cases hcut : (frame 4 p).length ≤ cut
      · rw [framesWithin, if_pos hcut] at hfuel ⊢
        obtain ⟨fuel, rfl⟩ := Nat.exists_eq_add_of_lt (Nat.zero_lt_of_lt hfuel)
        rw [Nat.zero_add, List.length_cons] at hfuel
        rw [take_frame_append hcut] at hinput
        have hread := readFrame_append hp ((ps.flatMap (frame 4)).take (cut - (frame 4 p).length))
        rw [← hinput] at hread
        rw [Nat.zero_add, loop_of_readFrame_some hs hread]
        obtain ⟨hin, hpayloads, _, hgo⟩ := receive_spec (c := c) (s := { s with
          input := (ps.flatMap (frame 4)).take (cut - (frame 4 p).length) }) hs p
        rcases hgo with ⟨hno, hout, hcalls⟩ | ⟨hyes, hans, hout, hcalls⟩ | ⟨hyes, hans, hout⟩
        · rw [ih hrest hout hin (by omega), hpayloads, hcalls, passed, if_neg (by simp [hno]),
            List.append_assoc, List.singleton_append]
        · rw [ih hrest hout hin (by omega), hpayloads, hcalls, passed, if_pos hyes, if_pos hans,
            List.append_assoc, List.singleton_append]
        · rw [Runs.loop_succ_of_none (round_of_left hout), hpayloads, passed, if_pos hyes,
            if_neg (by simp [hans])]
      · have hlt : cut < (frame 4 p).length := not_le.mp hcut
        have hread : readFrame 4 s.input = none := by
          rw [hinput, take_frame_append_of_lt hlt, readFrame_take hp hlt]
        rw [loop_of_readFrame_none hs hread (Nat.zero_lt_of_lt hfuel), framesWithin,
          if_neg hcut, passed, List.append_nil]

theorem cleanUp_payloads (s : IncomingState) : (cleanUp s).payloads = s.payloads := by
  unfold cleanUp
  split <;> rfl

/-- The messages are those that the passed payloads are read as. -/
theorem handleIncoming_messages (input : Bytes) (peers : ExtTreeMap NodeId NodeInfo compare)
    (connections : ExtTreeSet NodeId compare) :
    (c.handleIncoming input peers connections).messages =
      (c.handleIncoming input peers connections).payloads.filterMap c.decoded := by
  have hround : ∀ s s' : IncomingState, s.messages = s.payloads.filterMap c.decoded →
      c.round s = some s' → s'.messages = s'.payloads.filterMap c.decoded := by
    intro s s' hs hs'
    cases hout : s.outcome with
    | some outcome => simp [round, hout] at hs'
    | none =>
        rcases round_eq (c := c) hout with ⟨p, rest, _, hround⟩ | ⟨_, input, hround⟩
        · obtain rfl := Option.some.inj (hround.symm.trans hs')
          obtain ⟨_, hpayloads, hmessages, _⟩ :=
            receive_spec (c := c) (s := { s with input := rest }) hout p
          have hlast : [p].filterMap c.decoded = (c.decoded p).toList := by
            cases hp : c.decoded p <;> simp [hp]
          rw [hpayloads, hmessages, List.filterMap_append, ← hs, hlast]
        · obtain rfl := Option.some.inj (hround.symm.trans hs')
          exact hs
  have hloop := Runs.loop_invariant hround (input.length + 2)
    (s := start input peers connections) rfl
  rw [handleIncoming]
  unfold cleanUp
  split
  · exact hloop
  · exact hloop

theorem handleIncoming_payloads {ps : List Bytes} (hps : ∀ p ∈ ps, p.length < 2 ^ 32) (cut : ℕ)
    (peers : ExtTreeMap NodeId NodeInfo compare) (connections : ExtTreeSet NodeId compare) :
    (c.handleIncoming ((ps.flatMap (frame 4)).take cut) peers connections).payloads =
      c.passed 0 (framesWithin 4 ps cut) := by
  have hfuel : (framesWithin 4 ps cut).length < ((ps.flatMap (frame 4)).take cut).length + 2 := by
    have hle := length_framesWithin_le (w := 4) (by decide) ps cut
    omega
  have hloop := loop_payloads (c := c) (s := start ((ps.flatMap (frame 4)).take cut) peers
    connections) hps rfl rfl hfuel
  rw [handleIncoming, cleanUp_payloads, hloop]
  rfl

/-- A single frame is read as one message at most. -/
theorem handleIncoming_frame {p : Bytes} (hp : p.length < 2 ^ 32)
    (peers : ExtTreeMap NodeId NodeInfo compare) (connections : ExtTreeSet NodeId compare) :
    (c.handleIncoming (frame 4 p) peers connections).messages = (c.decoded p).toList := by
  have hpayloads := handleIncoming_payloads (c := c) (fun q hq => (List.mem_singleton.mp hq) ▸ hp)
    (frame 4 p).length peers connections
  have hwithin : framesWithin 4 [p] (frame 4 p).length = [p] := by simp [framesWithin]
  have hpassed : c.passed 0 [p] = [p] := by
    simp only [passed]
    split_ifs <;> rfl
  rw [hwithin, hpassed, List.flatMap_singleton, List.take_length] at hpayloads
  rw [handleIncoming_messages, hpayloads]
  cases hd : c.decoded p <;> simp [hd]

theorem decoded_eq_some_iff {p : Bytes} {m : TransportMessage} :
    c.decoded p = some m ↔ c.serializer.deserializeAny p = .ok (.transport m) := by
  unfold decoded
  split
  · simp_all
  · simp_all

/-- Whatever the payloads and wherever the stream is cut, `deserialize_any` gets the payloads of the
complete frames, in order and unchanged, up to the first handshake that is not answered. When every
answer succeeds, or no payload is a handshake, it gets all of them. -/
theorem framing_exact (c : Incoming) (ps : List Bytes) (cut : ℕ)
    (peers : ExtTreeMap NodeId NodeInfo compare) (connections : ExtTreeSet NodeId compare)
    (hps : ∀ p ∈ ps, p.length < 2 ^ 32) :
    let payloads := (c.handleIncoming ((ps.flatMap (frame 4)).take cut) peers connections).payloads
    payloads = c.passed 0 (framesWithin 4 ps cut) ∧
      ((∀ k, c.answered k = true) → payloads = framesWithin 4 ps cut) ∧
      ((∀ p ∈ framesWithin 4 ps cut, c.isHandshake p = false) →
        payloads = framesWithin 4 ps cut) := by
  intro payloads
  have hpassed : payloads = c.passed 0 (framesWithin 4 ps cut) :=
    handleIncoming_payloads hps cut peers connections
  refine ⟨hpassed, fun hall => ?_, fun hnone => ?_⟩
  · rw [hpassed, passed_eq_self hall]
  · rw [hpassed, passed_eq_self_of_not_handshake hnone]

/-- A connection whose peer no longer reads. -/
def deafPeer : Incoming where
  localNodeInfo := .new 1 "a" .peer (.v4 ⟨0x7f000001, 8080⟩)
  serializer := bincodeSerializer
  hasHandler := true
  writes := fun _ => false

/-- An undecodable payload, an empty one and a last frame that lacks its final byte. -/
theorem framing_exact_cut :
    let ps : List Bytes := [[1, 2, 3], [], [7, 0, 0, 0]]
    (∀ p ∈ ps, p.length < 2 ^ 32) ∧
      (deafPeer.handleIncoming ((ps.flatMap (frame 4)).take 18) ∅ ∅).payloads =
        [[1, 2, 3], []] := by
  intro ps
  have hps : ∀ p ∈ ps, p.length < 2 ^ 32 := by decide
  refine ⟨hps, (framing_exact deafPeer ps 18 ∅ ∅ hps).1.trans ?_⟩
  decide +kernel

/-- The answer to the handshake cannot be written, so the frame behind it is never read. -/
theorem not_framing_exact : ¬ ∀ (c : Incoming) (ps : List Bytes) (cut : ℕ)
    (peers : ExtTreeMap NodeId NodeInfo compare) (connections : ExtTreeSet NodeId compare),
    (∀ p ∈ ps, p.length < 2 ^ 32) →
      (c.handleIncoming ((ps.flatMap (frame 4)).take cut) peers connections).payloads =
        framesWithin 4 ps cut := by
  intro h
  let hello := Bincode.transportMessage.encode
    (.handshake (.new 2 "b" .peer (.v4 ⟨0x7f000001, 8081⟩)))
  have hall := h deafPeer [hello, [7, 0, 0, 0]] 200 ∅ ∅ (by decide +kernel)
  exact absurd hall (by decide +kernel)

end Incoming

end ActixPura
