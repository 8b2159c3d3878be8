import ActixPura.RaftOverflow

/-!
# Raft calls in checked arithmetic

The calls of a Raft node once more, with every sum and difference of `u64` numbers computed as the
code does with overflow checks: a sum above the range or a difference below zero ends the call. Such
a call returns what the call on natural numbers does exactly if it does not overflow, so the
operands that `NoOverflow` asks about are those of the code. The `last_applied += 1` of
`apply_committed_entries` is guarded by the commit index and stays as it is.
-/

namespace ActixPura

open Std (ExtTreeMap)

/-- A computation that returns `a` if `p` holds, and fails otherwise. -/
def Gives {α : Type*} (c : Option α) (p : Prop) (a : α) : Prop := ∀ b, c = some b ↔ p ∧ b = a

namespace Gives

variable {α β : Type*} {c : Option α} {p q : Prop} {a : α}

theorem of_some (a : α) : Gives (some a) True a := fun b => by
  simp [eq_comm]

theorem of_ite (p : Prop) [Decidable p] (a : α) : Gives (if p then some a else none) p a :=
  fun b => by
    by_cases hp : p
    · simp [hp, eq_comm]
    · simp [hp]

theorem congr (h : Gives c p a) (hpq : p ↔ q) : Gives c q a := fun b => by
  rw [h b, hpq]

theorem map (h : Gives c p a) (f : α → β) : Gives (c.map f) p (f a) := fun b => by
  simp only [Option.map_eq_some_iff, h _]
  constructor
  · rintro ⟨_, ⟨hp, rfl⟩, rfl⟩
    exact ⟨hp, rfl⟩
  · rintro ⟨hp, rfl⟩
    exact ⟨a, ⟨hp, rfl⟩, rfl⟩

theorem bind (h : Gives c p a) {f : α → Option β} {b : β} (hf : Gives (f a) q b) :
    Gives (c.bind f) (p ∧ q) b := fun x => by
  simp only [Option.bind_eq_some_iff, h _]
  constructor
  · rintro ⟨_, ⟨hp, rfl⟩, hx⟩
    exact ⟨⟨hp, ((hf x).mp hx).1⟩, ((hf x).mp hx).2⟩
  · rintro ⟨⟨hp, hq⟩, hx⟩
    exact ⟨a, ⟨hp, rfl⟩, (hf x).mpr ⟨hq, hx⟩⟩

theorem mapM {f : α → Option β} {g : α → β} {r : α → Prop} (h : ∀ x, Gives (f x) (r x) (g x))
    (xs : List α) : Gives (xs.mapM f) (∀ x ∈ xs, r x) (xs.map g) := by
  induction xs with
  | nil => exact (of_some []).congr (by simp)
  | cons x xs ih =>
      rw [List.mapM_cons, List.map_cons]
      have hrest := ih.bind (f := fun ys => some (g x :: ys)) (of_some _)
      exact ((h x).bind (f := fun y => (xs.mapM f).bind fun ys => some (y :: ys)) hrest).congr
        (by simp)

/-- A run of steps that each give their successor gives the last state if all of them succeed. -/
theorem foldlM {σ : Type*} {step : σ → α → σ} {check : σ → α → Option σ} {ok : σ → α → Prop}
    (h : ∀ s x, Gives (check s x) (ok s x) (step s x)) (s : σ) (xs : List α) :
    Gives (xs.foldlM check s) (Runs.Admissible step ok s xs) (Runs.run step s xs) := by
  induction xs generalizing s with
  | nil => exact of_some s
  | cons x xs ih => exact (h s x).bind (ih (step s x))

end Gives

def checkedAdd (a b : ℕ) : Option ℕ := if a + b ≤ u64Max then some (a + b) else none

def checkedSub (a b : ℕ) : Option ℕ := if b ≤ a then some (a - b) else none

/-- `log.last().map(|entry| entry.index + 1).unwrap_or(1)`. -/
def checkedNextLogIndex (log : List LogEntry) : Option ℕ :=
  match log.getLast? with
  | some e => checkedAdd e.index 1
  | none => some 1

namespace RaftNode

def checkedSetClusterNodes (n : RaftNode) (nodes : List String) : Option RaftNode :=
  let n' := { n with clusterNodes := nodes.filter (fun id => id != n.nodeId) }
  if n.state = .leader then
    (checkedNextLogIndex n.log).map fun next => n'.resetReplication next n'.clusterNodes
  else some n'

def checkedStartElection (n : RaftNode) : Option (RaftNode × Outbox) :=
  if n.state = .leader then some (n, [])
  else (checkedAdd n.currentTerm 1).map fun term =>
    let n' := { n with state := .candidate, currentTerm := term, votedFor := some n.nodeId }
    (n', n'.clusterNodes.map (fun id =>
      (id, .requestVote n'.currentTerm n'.nodeId (lastLogIndex n'.log) (lastLogTerm n'.log))))

def checkedHeartbeat (n : RaftNode) (id : String) : Option RaftRequestMessage :=
  (checkedSub (n.nextFor id) 1).map fun prev =>
    .appendEntries n.currentTerm n.nodeId prev (prevLogTerm n.log prev) [] n.commitIndex

def checkedSendHeartbeats (n : RaftNode) : Option Outbox :=
  if n.state = .leader then
    n.clusterNodes.mapM fun id => (n.checkedHeartbeat id).map fun request => (id, request)
  else some []

def checkedBecomeLeader (n : RaftNode) : Option (RaftNode × Outbox) :=
  if n.state = .candidate then
    (checkedNextLogIndex n.log).bind fun next =>
      let n' := resetReplication { n with state := .leader, currentLeaderId := some n.nodeId }
        next n.clusterNodes
      n'.checkedSendHeartbeats.map fun outbox => (n', outbox)
  else some (n, [])

def checkedReplication (n : RaftNode) (id : String) : Option RaftRequestMessage :=
  let next := n.nextFor id
  (checkedSub next 1).map fun prev =>
    .appendEntries n.currentTerm n.nodeId prev (prevLogTerm n.log prev)
      (n.log.filter (fun e => next ≤ e.index)) n.commitIndex

def checkedReplicateLogToFollower (n : RaftNode) (id : String) : Option Outbox :=
  if n.state = .leader then (n.checkedReplication id).map fun request => [(id, request)]
  else some []

def checkedHandleClientCommand (clock : Clock) (n : RaftNode) (command : ClientCommand) :
    Option (RaftNode × Outbox) :=
  if n.state = .leader then
    (checkedNextLogIndex n.log).bind fun next =>
      let n' : RaftNode := { n with log := n.log ++ [⟨n.currentTerm, next, command.command⟩] }
      if n'.clusterNodes.isEmpty then
        some (applyCommittedEntries clock { n' with commitIndex := next }, [])
      else (n'.clusterNodes.mapM n'.checkedReplicateLogToFollower).map fun outboxes =>
        (n', outboxes.flatten)
  else some (n, [])

def checkedHandleAppendEntriesResponse (clock : Clock) (n : RaftNode) (followerId : String) :
    RaftResponseMessage → Option (RaftNode × Outbox)
  | .appendEntriesResponse term success matchIndex =>
    if n.currentTerm < term then
      some ({ n with currentTerm := term, state := .follower, votedFor := none,
                     currentLeaderId := none }, [])
    else if success then
      (checkedAdd matchIndex 1).map fun next =>
        let n' := { n with
          matchIndex := n.matchIndex.insert followerId matchIndex
          nextIndex := n.nextIndex.insert followerId next }
        (n'.log.foldl (commitEntry clock) n', [])
    else
      let next := n.nextFor followerId
      if 1 < next then
        (checkedSub next 1).bind fun next' =>
          let n' := { n with nextIndex := n.nextIndex.insert followerId next' }
          (n'.checkedReplicateLogToFollower followerId).map fun outbox => (n', outbox)
      else some (n, [])
  | _ => some (n, [])

def checkedAct (n : RaftNode) : LocalEvent → Option (RaftNode × Outbox)
  | .setClusterNodes nodes => (n.checkedSetClusterNodes nodes).map fun n' => (n', [])
  | .addClusterNode nodeId => some ((n.addClusterNode nodeId).1, [])
  | .startElection => n.checkedStartElection
  | .becomeLeader => n.checkedBecomeLeader
  | .sendHeartbeats => n.checkedSendHeartbeats.map fun outbox => (n, outbox)
  | .clientCommand clock command => n.checkedHandleClientCommand clock command

def checkedStep (n : RaftNode) : NodeEvent → Option RaftNode
  | .act event => (n.checkedAct event).map Prod.fst
  | .requestVote message => some (n.handleRequestVote message).1
  | .appendEntries message => some (n.appendEntries message).1
  | .response clock followerId message =>
    (n.checkedHandleAppendEntriesResponse clock followerId message).map Prod.fst

section Calls

variable (n : RaftNode)

theorem gives_checkedAdd (a b : ℕ) : Gives (checkedAdd a b) (a + b ≤ u64Max) (a + b) :=
  .of_ite _ _

theorem gives_checkedSub (a b : ℕ) : Gives (checkedSub a b) (b ≤ a) (a - b) := .of_ite _ _

theorem gives_nextLogIndex (log : List LogEntry) : Gives (checkedNextLogIndex log)
    (∀ p ∈ nextLogIndexSum log, p.1 + p.2 ≤ u64Max) (nextLogIndex log) := by
  unfold checkedNextLogIndex nextLogIndexSum nextLogIndex
  cases log.getLast? with
  | none => exact (Gives.of_some 1).congr (by simp)
  | some e => exact (gives_checkedAdd e.index 1).congr (by simp)

theorem gives_heartbeat (id : String) : Gives (n.checkedHeartbeat id)
    ((n.prevDifference id).2 ≤ (n.prevDifference id).1) (n.heartbeat id) :=
  (gives_checkedSub (n.nextFor id) 1).map _

theorem gives_sendHeartbeats : Gives n.checkedSendHeartbeats
    (∀ p ∈ n.heartbeatDifferences, p.2 ≤ p.1) n.sendHeartbeats := by
  unfold checkedSendHeartbeats heartbeatDifferences sendHeartbeats
  split_ifs
  · exact (Gives.mapM (fun id => (n.gives_heartbeat id).map _) n.clusterNodes).congr (by simp)
  · exact (Gives.of_some []).congr (by simp)

theorem gives_replicateLogToFollower (id : String) : Gives (n.checkedReplicateLogToFollower id)
    (∀ p ∈ n.replicationDifferences id, p.2 ≤ p.1) (n.replicateLogToFollower id) := by
  unfold checkedReplicateLogToFollower replicationDifferences replicateLogToFollower
  split_ifs
  · exact (((gives_checkedSub (n.nextFor id) 1).map _).map _).congr
      (by simp [prevDifference])
  · exact (Gives.of_some []).congr (by simp)

theorem noOverflow_iff_and {event : NodeEvent} : n.NoOverflow event ↔
    (∀ p ∈ n.additions event, p.1 + p.2 ≤ u64Max) ∧ ∀ p ∈ n.subtractions event, p.2 ≤ p.1 :=
  ⟨fun h => ⟨h.additions, h.subtractions⟩, fun h => ⟨h.1, h.2⟩⟩

theorem gives_becomeLeader :
    Gives n.checkedBecomeLeader (n.NoOverflow (.act .becomeLeader)) n.becomeLeader := by
  rw [noOverflow_iff_and]
  unfold checkedBecomeLeader
  simp only [additions, subtractions]
  by_cases hc : n.state = .candidate
  · rw [if_pos hc, if_pos hc, if_pos hc, becomeLeader, if_pos hc]
    exact (gives_nextLogIndex n.log).bind ((gives_sendHeartbeats _).map _)
  · rw [if_neg hc, if_neg hc, if_neg hc, becomeLeader, if_neg hc]
    exact (Gives.of_some _).congr (by simp)

theorem gives_handleClientCommand (clock : Clock) (command : ClientCommand) :
    Gives (n.checkedHandleClientCommand clock command)
      (n.NoOverflow (.act (.clientCommand clock command)))
      (n.act (.clientCommand clock command)) := by
  rw [noOverflow_iff_and]
  unfold checkedHandleClientCommand
  simp only [additions, subtractions, act, handleClientCommand]
  by_cases hl : n.state = .leader
  · simp only [if_pos hl]
    refine Gives.bind (q := ∀ p ∈ n.clusterNodes.flatMap
      (n.appendCommand command.command).replicationDifferences, p.2 ≤ p.1)
      (gives_nextLogIndex n.log) ?_
    by_cases hnodes : n.clusterNodes.isEmpty
    · have hnil : n.clusterNodes = [] := List.isEmpty_iff.mp hnodes
      rw [appendCommand]
      simp only [if_pos hnodes]
      exact (Gives.of_some _).congr (by simp [hnil])
    · rw [appendCommand]
      simp only [if_neg hnodes]
      have hsent := (Gives.mapM (n.appendCommand command.command).gives_replicateLogToFollower
        n.clusterNodes).map fun outboxes => (n.appendCommand command.command, outboxes.flatten)
      exact hsent.congr List.forall_mem_flatMap.symm
  · simp only [if_neg hl]
    exact (Gives.of_some _).congr (by simp)

theorem gives_handleAppendEntriesResponse (clock : Clock) (followerId : String)
    (message : RaftResponseMessage) :
    Gives (n.checkedHandleAppendEntriesResponse clock followerId message)
      (n.NoOverflow (.response clock followerId message))
      (n.handleAppendEntriesResponse clock followerId message) := by
  rw [noOverflow_iff_and]
  cases message with
  | requestVoteResponse term voteGranted | installSnapshotResponse term success =>
      exact (Gives.of_some _).congr (by simp [additions, subtractions])
  | appendEntriesResponse term success matchIndex =>
      simp only [checkedHandleAppendEntriesResponse, handleAppendEntriesResponse, additions,
        subtractions]
      split_ifs
      · exact (Gives.of_some _).congr (by simp)
      · exact ((gives_checkedAdd matchIndex 1).map _).congr (by simp)
      · refine ((gives_checkedSub (n.nextFor followerId) 1).bind
          ((gives_replicateLogToFollower _ followerId).map _)).congr ?_
        simp [prevDifference]
      · exact (Gives.of_some _).congr (by simp)

theorem gives_act (event : LocalEvent) :
    Gives (n.checkedAct event) (n.NoOverflow (.act event)) (n.act event) := by
  cases event with
  | becomeLeader => exact n.gives_becomeLeader
  | clientCommand clock command => exact n.gives_handleClientCommand clock command
  | addClusterNode nodeId =>
      exact (Gives.of_some _).congr (by simp [noOverflow_iff_and, additions, subtractions])
  | sendHeartbeats =>
      rw [noOverflow_iff_and]
      exact (n.gives_sendHeartbeats.map _).congr (by simp [additions, subtractions])
  | setClusterNodes nodes =>
      rw [noOverflow_iff_and]
      simp only [checkedAct, checkedSetClusterNodes, additions, subtractions, act, setClusterNodes]
      split_ifs
      · exact (((gives_nextLogIndex n.log).map _).map _).congr (by simp)
      · exact ((Gives.of_some _).map _).congr (by simp)
  | startElection =>
      rw [noOverflow_iff_and]
      simp only [checkedAct, checkedStartElection, additions, subtractions, act, startElection]
      split_ifs
      · exact (Gives.of_some _).congr (by simp)
      · exact ((gives_checkedAdd n.currentTerm 1).map _).congr (by simp)

/-- In checked arithmetic a call returns exactly if it does not overflow, and then what it returns
on natural numbers. -/
theorem gives_step (event : NodeEvent) :
    Gives (n.checkedStep event) (n.NoOverflow event) (n.step event) := by
  cases event with
  | act event => exact (n.gives_act event).map Prod.fst
  | response clock followerId message =>
      exact (n.gives_handleAppendEntriesResponse clock followerId message).map Prod.fst
  | requestVote message | appendEntries message =>
      exact (Gives.of_some _).congr (by simp [noOverflow_iff_and, additions, subtractions])

/-- A run of calls in checked arithmetic gets to its end exactly if no call of it overflows. -/
theorem gives_run (events : List NodeEvent) : Gives (events.foldlM checkedStep n)
    (Runs.Admissible step NoOverflow n events) (Runs.run step n events) :=
  .foldlM gives_step n events

end Calls

end RaftNode

end ActixPura
