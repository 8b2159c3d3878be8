import ActixPura.ClusterMessages
import ActixPura.Deliveries

/-!
# Master election

`master.rs`. Every node runs a `MasterActor`. A node that is first among the backup masters and has
not heard of its master for too long broadcasts an `ElectionMessage` with its priority, a number
that is better the lower it is. A node that ranks before the candidate answers with a broadcast of
its own, and a node of worse priority sends itself an `UpdateMaster` that names the candidate.

A cluster is the actors together with the packets in flight. The handlers hand their work to
spawned tasks that only read the node map, so a delivery performs the handler and its task at once
and the packets arrive in any order. The node maps do not change during an election, and a
`HashMap` that does not change is iterated in one order: it is modelled by the list of its entries
in that order.
-/

namespace ActixPura

structure NodeMap where
  entries : List (NodeId × NodeInfo)
  nodup : (entries.map Prod.fst).Nodup

def NodeMap.get (nodes : NodeMap) (id : NodeId) : Option NodeInfo := nodes.entries.lookup id

def NodeMap.keys (nodes : NodeMap) : List NodeId := nodes.entries.map Prod.fst

/-- Durations and instants count nanoseconds. -/
structure MasterActor where
  localNodeId : NodeId
  state : MasterState
  nodes : NodeMap
  electionTimeout : ℕ
  lastMasterHeartbeat : ℕ
  currentRound : UInt64

inductive MasterMessage
  | election (message : ElectionMessage)
  | updateMaster (masterId : NodeId)
  | updateBackupMasters (backupMasters : List NodeId)
  deriving DecidableEq

structure MasterPacket where
  target : NodeId
  message : MasterMessage
  deriving DecidableEq

namespace MasterActor

def new (localNodeId : NodeId) (nodes : NodeMap) (now : ℕ) : MasterActor where
  localNodeId := localNodeId
  state := ⟨localNodeId, [], 0, 0⟩
  nodes := nodes
  electionTimeout := 5 * 10 ^ 9
  lastMasterHeartbeat := now
  currentRound := 0

def saturatingSub (a b : UInt32) : UInt32 := if a < b then 0 else a - b

def calculatePriorityStatic (nodes : NodeMap) (nodeId : NodeId) : UInt32 :=
  match nodes.get nodeId with
  | some info =>
    let loadFactor := info.load.toUInt32
    let uptime := (info.joinedAt.getD 0).toUInt32
    saturatingSub loadFactor (uptime / 3600)
  | none => 0xFFFFFFFF

def priority (a : MasterActor) : UInt32 := calculatePriorityStatic a.nodes a.localNodeId

def candidature (a : MasterActor) (round : UInt64) : ElectionMessage :=
  ⟨a.localNodeId, a.priority, round⟩

/-- The broadcast of an election, to the other known nodes and to the node itself. -/
def electionPackets (a : MasterActor) (round : UInt64) : List MasterPacket :=
  (a.nodes.keys.filter (· ≠ a.localNodeId) ++ [a.localNodeId]).map fun target =>
    ⟨target, .election (a.candidature round)⟩

def handleCheckMasterHealth (a : MasterActor) (now : ℕ) : MasterActor × List MasterPacket :=
  if a.state.masterId = a.localNodeId then ({ a with lastMasterHeartbeat := now }, [])
  else if now - a.lastMasterHeartbeat > a.electionTimeout then
    match a.state.backupMasters.head? with
    | some firstBackup =>
      if firstBackup = a.localNodeId then (a, a.electionPackets (a.currentRound + 1)) else (a, [])
    | none => (a, [])
  else (a, [])

/-- The actor after it has seen a message of the given round. -/
def joinRound (a : MasterActor) (round : UInt64) : MasterActor :=
  if round > a.currentRound then { a with currentRound := round } else a

def handleElection (a : MasterActor) (msg : ElectionMessage) :
    MasterActor × List MasterPacket :=
  if msg.round < a.currentRound then (a, [])
  else
    let a := a.joinRound msg.round
    if a.priority < msg.priority then (a, a.electionPackets a.currentRound)
    else if a.priority > msg.priority then
      (a, [⟨a.localNodeId, .updateMaster msg.candidateId⟩])
    else if a.localNodeId < msg.candidateId then (a, a.electionPackets a.currentRound)
    else (a, [])

/-- The two nodes of role `Master` other than the new master with the least load. -/
def selectBackups (nodes : NodeMap) (newMasterId : NodeId) : List NodeId :=
  let candidates := nodes.entries.filter fun e => e.1 ≠ newMasterId ∧ e.2.role = .master
  ((candidates.mergeSort fun x y => x.2.load ≤ y.2.load).take 2).map Prod.fst

/-- `last_update` is the time elapsed since an instant taken in the same expression. -/
def handleUpdateMaster (a : MasterActor) (masterId : NodeId) : MasterActor × List MasterPacket :=
  ({ a with state := { a.state with
      masterId := masterId, lastUpdate := 0, version := a.state.version + 1 } },
    [⟨a.localNodeId, .updateBackupMasters (selectBackups a.nodes masterId)⟩])

def handleUpdateBackupMasters (a : MasterActor) (backupMasters : List NodeId) :
    MasterActor × List MasterPacket :=
  ({ a with state := { a.state with backupMasters := backupMasters } }, [])

def handle (a : MasterActor) : MasterMessage → MasterActor × List MasterPacket
  | .election msg => a.handleElection msg
  | .updateMaster masterId => a.handleUpdateMaster masterId
  | .updateBackupMasters backupMasters => a.handleUpdateBackupMasters backupMasters

/-- Candidates are compared by priority first and by id among equal priorities. -/
def rank (a : MasterActor) : ℕ ×ₗ ℕ := toLex (a.priority.toNat, a.localNodeId.val)

@[simp] theorem joinRound_localNodeId (a : MasterActor) (round : UInt64) :
    (a.joinRound round).localNodeId = a.localNodeId := by
  unfold joinRound
  split_ifs <;> rfl

@[simp] theorem joinRound_nodes (a : MasterActor) (round : UInt64) :
    (a.joinRound round).nodes = a.nodes := by
  unfold joinRound
  split_ifs <;> rfl

@[simp] theorem joinRound_state (a : MasterActor) (round : UInt64) :
    (a.joinRound round).state = a.state := by
  unfold joinRound
  split_ifs <;> rfl

@[simp] theorem joinRound_priority (a : MasterActor) (round : UInt64) :
    (a.joinRound round).priority = a.priority := by
  simp only [priority, joinRound_nodes, joinRound_localNodeId]

@[simp] theorem joinRound_electionPackets (a : MasterActor) (round r : UInt64) :
    (a.joinRound round).electionPackets r = a.electionPackets r := by
  simp only [electionPackets, candidature, joinRound_nodes, joinRound_localNodeId,
    joinRound_priority]

theorem joinRound_currentRound {a : MasterActor} {round : UInt64} (h : a.currentRound ≤ round) :
    (a.joinRound round).currentRound = round := by
  unfold joinRound
  split_ifs with hlt
  · rfl
  · exact UInt64.le_antisymm h (UInt64.not_lt.mp hlt)

end MasterActor

def ElectionMessage.rank (msg : ElectionMessage) : ℕ ×ₗ ℕ :=
  toLex (msg.priority.toNat, msg.candidateId.val)

namespace MasterActor

@[simp] theorem rank_candidature (a : MasterActor) (round : UInt64) :
    (a.candidature round).rank = a.rank := rfl

theorem rank_lt_iff (a : MasterActor) (msg : ElectionMessage) : a.rank < msg.rank ↔
    a.priority < msg.priority ∨ a.priority = msg.priority ∧ a.localNodeId < msg.candidateId := by
  simp only [rank, ElectionMessage.rank, Prod.Lex.toLex_lt_toLex, UInt32.lt_iff_toNat_lt,
    UInt32.toNat_inj, Fin.lt_def]

/-- What a message does that is not of an old round: the actor joins the round, and answers a
candidate that ranks behind it, or accepts one of better priority. Between two nodes of the same
priority the one that ranks behind does neither. -/
theorem handleElection_eq {a : MasterActor} {msg : ElectionMessage}
    (h : a.currentRound ≤ msg.round) : a.handleElection msg = (a.joinRound msg.round,
      if a.rank < msg.rank then a.electionPackets msg.round
      else if msg.priority < a.priority then [⟨a.localNodeId, .updateMaster msg.candidateId⟩]
      else []) := by
  simp only [handleElection, if_neg (UInt64.not_lt.mpr h), joinRound_priority,
    joinRound_localNodeId, joinRound_electionPackets, joinRound_currentRound h, rank_lt_iff]
  rcases lt_trichotomy a.priority.toNat msg.priority.toNat with hlt | heq | hgt
  · have hours := UInt32.lt_iff_toNat_lt.mpr hlt
    rw [if_pos hours, if_pos (Or.inl hours)]
  · have hours := UInt32.toNat_inj.mp heq
    simp only [hours, gt_iff_lt, UInt32.lt_irrefl, if_false, false_or, true_and]
    split_ifs <;> rfl
  · have htheirs := UInt32.lt_iff_toNat_lt.mpr hgt
    have hours : ¬ a.priority < msg.priority := UInt32.lt_asymm htheirs
    have hne : a.priority ≠ msg.priority := fun heq => UInt32.lt_irrefl _ (heq ▸ htheirs)
    simp only [hours, hne, gt_iff_lt, htheirs, if_true, if_false, false_and, or_self]

theorem handleElection_of_old {a : MasterActor} {msg : ElectionMessage}
    (h : ¬ a.currentRound ≤ msg.round) : a.handleElection msg = (a, []) := by
  rw [handleElection, if_pos (UInt64.not_le.mp h)]

/-- A handler changes neither the name of the node nor its map. -/
theorem handle_node (a : MasterActor) (message : MasterMessage) :
    (a.handle message).1.localNodeId = a.localNodeId ∧ (a.handle message).1.nodes = a.nodes := by
  cases message with
  | election msg =>
      by_cases h : a.currentRound ≤ msg.round
      · simp only [handle, handleElection_eq h, joinRound_localNodeId, joinRound_nodes, and_self]
      · simp only [handle, handleElection_of_old h, and_self]
  | updateMaster masterId => exact ⟨rfl, rfl⟩
  | updateBackupMasters backupMasters => exact ⟨rfl, rfl⟩

/-- Everything that a handler can send. -/
theorem mem_handle_cases {a : MasterActor} {message : MasterMessage} {q : MasterPacket}
    (h : q ∈ (a.handle message).2) :
    (∃ msg, message = .election msg ∧ a.currentRound ≤ msg.round ∧ a.rank < msg.rank ∧
      q ∈ a.electionPackets msg.round) ∨
    (∃ msg, message = .election msg ∧ a.currentRound ≤ msg.round ∧ msg.priority < a.priority ∧
      q = ⟨a.localNodeId, .updateMaster msg.candidateId⟩) ∨
    ∃ masterId, message = .updateMaster masterId ∧
      q = ⟨a.localNodeId, .updateBackupMasters (selectBackups a.nodes masterId)⟩ := by
  cases message with
  | election msg =>
      by_cases hround : a.currentRound ≤ msg.round
      · simp only [handle, handleElection_eq hround] at h
        split_ifs at h with hrank hpriority
        · exact Or.inl ⟨msg, rfl, hround, hrank, h⟩
        · exact Or.inr (Or.inl ⟨msg, rfl, hround, hpriority, List.mem_singleton.mp h⟩)
        · simp at h
      · simp [handle, handleElection_of_old hround] at h
  | updateMaster masterId => exact Or.inr (Or.inr ⟨masterId, rfl, List.mem_singleton.mp h⟩)
  | updateBackupMasters backupMasters => simp [handle, handleUpdateBackupMasters] at h

/-- A health check records a heartbeat, does nothing, or starts an election for a node that has
another master. -/
theorem handleCheckMasterHealth_cases (a : MasterActor) (now : ℕ) :
    a.handleCheckMasterHealth now = ({ a with lastMasterHeartbeat := now }, []) ∨
      a.handleCheckMasterHealth now = (a, []) ∨
      a.state.masterId ≠ a.localNodeId ∧
        a.handleCheckMasterHealth now = (a, a.electionPackets (a.currentRound + 1)) := by
  unfold handleCheckMasterHealth
  by_cases hmaster : a.state.masterId = a.localNodeId
  · exact Or.inl (if_pos hmaster)
  · rw [if_neg hmaster]
    split_ifs
    · cases a.state.backupMasters.head? with
      | none => exact Or.inr (Or.inl rfl)
      | some firstBackup =>
          by_cases hfirst : firstBackup = a.localNodeId
          · exact Or.inr (Or.inr ⟨hmaster, if_pos hfirst⟩)
          · exact Or.inr (Or.inl (if_neg hfirst))
    · exact Or.inr (Or.inl rfl)

theorem handleCheckMasterHealth_node (a : MasterActor) (now : ℕ) :
    (a.handleCheckMasterHealth now).1.localNodeId = a.localNodeId ∧
      (a.handleCheckMasterHealth now).1.nodes = a.nodes ∧
      (a.handleCheckMasterHealth now).1.state = a.state := by
  rcases a.handleCheckMasterHealth_cases now with h | h | ⟨-, h⟩ <;> rw [h] <;>
    exact ⟨rfl, rfl, rfl⟩

end MasterActor

/-- Updates come after elections, and an election by the rank of its candidate. -/
def MasterPacket.rank (p : MasterPacket) : ℕ ×ₗ ℕ ×ₗ ℕ :=
  match p.message with
  | .election msg => toLex (2, msg.rank)
  | .updateMaster _ => toLex (1, toLex (0, 0))
  | .updateBackupMasters _ => toLex (0, toLex (0, 0))

/-- The actors by their node, and the packets in flight. A node without an actor drops what it
receives. -/
structure MasterCluster where
  actors : NodeId → Option MasterActor
  named : ∀ n a, actors n = some a → a.localNodeId = n
  inFlight : Multiset MasterPacket

namespace MasterCluster

/-- The actor of node `n` handles something; `rest` is in flight besides what it sends. -/
def act (s : MasterCluster) (n : NodeId) (handle : MasterActor → MasterActor × List MasterPacket)
    (hid : ∀ a, (handle a).1.localNodeId = a.localNodeId) (rest : Multiset MasterPacket) :
    MasterCluster where
  actors := Function.update s.actors n ((s.actors n).map fun a => (handle a).1)
  named := by
    intro m b hb
    by_cases hm : m = n
    · subst hm
      rw [Function.update_self] at hb
      obtain ⟨a, ha, rfl⟩ := Option.map_eq_some_iff.mp hb
      rw [hid, s.named m a ha]
    · rw [Function.update_of_ne hm] at hb
      exact s.named m b hb
  inFlight := rest + ((s.actors n).elim [] fun a => (handle a).2 : List MasterPacket)

def deliver (s : MasterCluster) (p : MasterPacket) : MasterCluster :=
  s.act p.target (fun a => a.handle p.message) (fun a => (a.handle_node p.message).1)
    (s.inFlight.erase p)

def checkMasterHealth (s : MasterCluster) (check : NodeId × ℕ) : MasterCluster :=
  s.act check.1 (fun a => a.handleCheckMasterHealth check.2)
    (fun a => (a.handleCheckMasterHealth_node check.2).1) s.inFlight

end MasterCluster

theorem MasterActor.rank_of_mem_electionPackets {a : MasterActor} {round : UInt64}
    {q : MasterPacket} (h : q ∈ a.electionPackets round) : q.rank = toLex (2, a.rank) := by
  obtain ⟨target, -, rfl⟩ := List.mem_map.mp h
  rfl

/-- A handler only sends packets that rank below the one it handles. -/
theorem MasterActor.rank_lt_of_mem_handle {a : MasterActor} {p q : MasterPacket}
    (h : q ∈ (a.handle p.message).2) : q.rank < p.rank := by
  obtain ⟨target, message⟩ := p
  rcases mem_handle_cases h with ⟨msg, rfl, -, hrank, hq⟩ | ⟨msg, rfl, -, -, rfl⟩ | ⟨id, rfl, rfl⟩
  · rw [rank_of_mem_electionPackets hq]
    exact Prod.Lex.toLex_lt_toLex.mpr (Or.inr ⟨rfl, hrank⟩)
  · exact Prod.Lex.toLex_lt_toLex.mpr (Or.inl (by norm_num))
  · exact Prod.Lex.toLex_lt_toLex.mpr (Or.inl (by norm_num))

namespace MasterCluster

theorem descends_deliver : Deliveries.Descends inFlight deliver MasterPacket.rank := by
  intro s p _
  refine ⟨_, rfl, fun q hq => ?_⟩
  cases ha : s.actors p.target with
  | none => simp [ha] at hq
  | some a =>
      rw [ha, Option.elim_some, Multiset.mem_coe] at hq
      exact MasterActor.rank_lt_of_mem_handle hq

/-- However the packets are ordered, deliveries cannot go on for ever. -/
theorem no_infinite_election (s : ℕ → MasterCluster) (p : ℕ → MasterPacket) :
    ¬ ∀ k, p k ∈ (s k).inFlight ∧ s (k + 1) = (s k).deliver (p k) :=
  descends_deliver.no_infinite_run s p

end MasterCluster

end ActixPura
