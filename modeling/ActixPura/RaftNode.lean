import ActixPura.StateMachine

/-!
# The Raft node

`consensus/raft.rs` without its timers: the election and heartbeat timers only decide *when*
`start_election` and `send_heartbeats` are called, and the runs below call them at any time. The
functions that build requests return them together with their targets. Terms and indices are
natural numbers, and `clock` gives the two clock readings used when the entry of an index is
applied.
-/

namespace ActixPura

open Std (ExtTreeMap)

inductive RaftNodeState
  | follower
  | candidate
  | leader
  deriving DecidableEq, Repr

structure LogEntry where
  term : ℕ
  index : ℕ
  command : StateMachineCommand

inductive RaftRequestMessage
  | requestVote (term : ℕ) (candidateId : String) (lastLogIndex lastLogTerm : ℕ)
  | appendEntries (term : ℕ) (leaderId : String) (prevLogIndex prevLogTerm : ℕ)
      (entries : List LogEntry) (leaderCommit : ℕ)
  | installSnapshot (term : ℕ) (leaderId : String) (lastIncludedIndex lastIncludedTerm : ℕ)
      (data : List UInt8)

inductive RaftResponseMessage
  | requestVoteResponse (term : ℕ) (voteGranted : Bool)
  | appendEntriesResponse (term : ℕ) (success : Bool) (matchIndex : ℕ)
  | installSnapshotResponse (term : ℕ) (success : Bool)
  deriving DecidableEq, Repr

structure ClientCommand where
  commandId : String
  command : StateMachineCommand

inductive ClientCommandResult
  | success (result : Option String) (leaderId : Option String) (appliedIndex : ℕ)
  | failure (error : String) (leaderId : Option String)
  | redirect (leaderId : String)

structure RaftNode where
  nodeId : String
  currentTerm : ℕ
  votedFor : Option String
  log : List LogEntry
  commitIndex : ℕ
  lastApplied : ℕ
  nextIndex : ExtTreeMap String ℕ compare
  matchIndex : ExtTreeMap String ℕ compare
  state : RaftNodeState
  currentLeaderId : Option String
  clusterNodes : List String
  stateMachine : TradingStateMachine

/-- Requests with the nodes they are sent to. -/
abbrev Outbox := List (String × RaftRequestMessage)

abbrev Clock := ℕ → DateTime × DateTime

/-- What a node does without receiving a message. -/
inductive LocalEvent
  | setClusterNodes (nodes : List String)
  | addClusterNode (nodeId : String)
  | startElection
  | becomeLeader
  | sendHeartbeats
  | clientCommand (clock : Clock) (command : ClientCommand)

inductive NodeEvent
  | act (event : LocalEvent)
  | requestVote (message : RaftRequestMessage)
  | appendEntries (message : RaftRequestMessage)
  | response (clock : Clock) (followerId : String) (message : RaftResponseMessage)

/-- `log.last()` by index and by term, 0 for the empty log. -/
def lastLogIndex (log : List LogEntry) : ℕ := (log.getLast?.map LogEntry.index).getD 0

def lastLogTerm (log : List LogEntry) : ℕ := (log.getLast?.map LogEntry.term).getD 0

/-- `log.last().map(|entry| entry.index + 1).unwrap_or(1)`. -/
def nextLogIndex (log : List LogEntry) : ℕ := (log.getLast?.map (fun e => e.index + 1)).getD 1

def entryAt (log : List LogEntry) (index : ℕ) : Option LogEntry :=
  log.find? (fun e => e.index == index)

/-- The term that is sent along with `prev_log_index`. -/
def prevLogTerm (log : List LogEntry) (prev : ℕ) : ℕ :=
  if 0 < prev then ((entryAt log prev).map LogEntry.term).getD 0 else 0

/-- The consistency check of `append_entries`. -/
def logConsistent (log : List LogEntry) (prev prevTerm : ℕ) : Bool :=
  prev == 0 || log.any (fun e => e.index == prev && e.term == prevTerm)

/-- An entry is appended unless its index is present; the flag is the new `match_index`. -/
def pushEntry (acc : List LogEntry × ℕ) (e : LogEntry) : List LogEntry × ℕ :=
  if acc.1.any (fun x => x.index == e.index) then acc else (acc.1 ++ [e], e.index)

/-- Truncation, append and sort of `append_entries`, with the resulting `match_index`. -/
def mergeEntries (log : List LogEntry) (prev : ℕ) (entries : List LogEntry) :
    List LogEntry × ℕ :=
  if entries.isEmpty then (log, prev)
  else
    let merged := entries.foldl pushEntry (log.filter (fun e => e.index ≤ prev), prev)
    (merged.1.insertionSort (fun a b => a.index ≤ b.index), merged.2)

namespace RaftNode

def new (nodeId : String) : RaftNode where
  nodeId := nodeId
  currentTerm := 0
  votedFor := none
  log := []
  commitIndex := 0
  lastApplied := 0
  nextIndex := ∅
  matchIndex := ∅
  state := .follower
  currentLeaderId := none
  clusterNodes := []
  stateMachine := .new

/-- Both replication maps set for all of `nodes`. -/
def resetReplication (n : RaftNode) (next : ℕ) (nodes : List String) : RaftNode :=
  { n with
    nextIndex := nodes.foldl (fun m id => m.insert id next) n.nextIndex
    matchIndex := nodes.foldl (fun m id => m.insert id 0) n.matchIndex }

def addClusterNode (n : RaftNode) (nodeId : String) : RaftNode × Except String Unit :=
  if !n.clusterNodes.contains nodeId && nodeId != n.nodeId then
    (resetReplication { n with clusterNodes := n.clusterNodes ++ [nodeId] } 1 [nodeId], .ok ())
  else (n, .error s!"节点 {nodeId} 已经在集群中或是当前节点")

def setClusterNodes (n : RaftNode) (nodes : List String) : RaftNode :=
  let n' := { n with clusterNodes := nodes.filter (fun id => id != n.nodeId) }
  if n.state = .leader then n'.resetReplication (nextLogIndex n.log) n'.clusterNodes else n'

def startElection (n : RaftNode) : RaftNode × Outbox :=
  if n.state = .leader then (n, [])
  else
    let n' := { n with
      state := .candidate
      currentTerm := n.currentTerm + 1
      votedFor := some n.nodeId }
    (n', n'.clusterNodes.map (fun id =>
      (id, .requestVote n'.currentTerm n'.nodeId (lastLogIndex n'.log) (lastLogTerm n'.log))))

def nextFor (n : RaftNode) (id : String) : ℕ := n.nextIndex[id]?.getD 1

/-- A heartbeat verifies the entry before `next_index` and carries no entries. -/
def heartbeat (n : RaftNode) (id : String) : RaftRequestMessage :=
  let prev := n.nextFor id - 1
  .appendEntries n.currentTerm n.nodeId prev (prevLogTerm n.log prev) [] n.commitIndex

def sendHeartbeats (n : RaftNode) : Outbox :=
  if n.state = .leader then n.clusterNodes.map (fun id => (id, n.heartbeat id)) else []

def becomeLeader (n : RaftNode) : RaftNode × Outbox :=
  if n.state = .candidate then
    let n' := resetReplication { n with state := .leader, currentLeaderId := some n.nodeId }
      (nextLogIndex n.log) n.clusterNodes
    (n', n'.sendHeartbeats)
  else (n, [])

/-- The request that carries all entries from `next_index` on. -/
def replication (n : RaftNode) (id : String) : RaftRequestMessage :=
  let next := n.nextFor id
  let prev := next - 1
  .appendEntries n.currentTerm n.nodeId prev (prevLogTerm n.log prev)
    (n.log.filter (fun e => next ≤ e.index)) n.commitIndex

def replicateLogToFollower (n : RaftNode) (id : String) : Outbox :=
  if n.state = .leader then [(id, n.replication id)] else []

/-- One round of the loop of `apply_committed_entries`. -/
def applyIndex (clock : Clock) (log : List LogEntry) (m : TradingStateMachine) (i : ℕ) :
    TradingStateMachine :=
  match entryAt log i with
  | some e => ((m.apply (clock i).1 (clock i).2 e.command).1).updateApplied e.index e.term
  | none => m

def applyCommittedEntries (clock : Clock) (n : RaftNode) : RaftNode :=
  { n with
    lastApplied := max n.lastApplied n.commitIndex
    stateMachine := (List.range' (n.lastApplied + 1) (n.commitIndex - n.lastApplied)).foldl
      (applyIndex clock n.log) n.stateMachine }

/-- The command becomes an entry of the current term at the end of the log. -/
def appendCommand (n : RaftNode) (command : StateMachineCommand) : RaftNode :=
  { n with log := n.log ++ [⟨n.currentTerm, nextLogIndex n.log, command⟩] }

def handleClientCommand (clock : Clock) (n : RaftNode) (command : ClientCommand) :
    RaftNode × ClientCommandResult × Outbox :=
  if n.state = .leader then
    let next := nextLogIndex n.log
    let n' := n.appendCommand command.command
    let answer := ClientCommandResult.success none (some n.nodeId) next
    if n'.clusterNodes.isEmpty then
      (applyCommittedEntries clock { n' with commitIndex := next }, answer, [])
    else (n', answer, n'.clusterNodes.flatMap n'.replicateLogToFollower)
  else (n, .redirect (n.currentLeaderId.getD "unknown"), [])

/-- A larger term makes the node a follower that has not voted. -/
def observeTerm (n : RaftNode) (term : ℕ) : RaftNode :=
  if n.currentTerm < term then
    { n with currentTerm := term, state := .follower, votedFor := none }
  else n

def appendEntries (n : RaftNode) : RaftRequestMessage → RaftNode × RaftResponseMessage
  | .appendEntries term leaderId prevLogIndex prevLogTerm entries leaderCommit =>
    if term < n.currentTerm then (n, .appendEntriesResponse n.currentTerm false 0)
    else
      let n := { n.observeTerm term with currentLeaderId := some leaderId }
      if logConsistent n.log prevLogIndex prevLogTerm then
        let merged := mergeEntries n.log prevLogIndex entries
        let commitIndex := if n.commitIndex < leaderCommit
          then min leaderCommit (lastLogIndex merged.1) else n.commitIndex
        ({ n with log := merged.1, commitIndex := commitIndex },
          .appendEntriesResponse n.currentTerm true merged.2)
      else (n, .appendEntriesResponse n.currentTerm false 0)
  | _ => (n, .appendEntriesResponse n.currentTerm false 0)

/-- The candidate's log is at least as new as the node's. -/
def logIsUpToDate (log : List LogEntry) (lastIndex lastTerm : ℕ) : Bool :=
  decide (lastLogTerm log < lastTerm) ||
    (lastTerm == lastLogTerm log && decide (lastLogIndex log ≤ lastIndex))

def handleRequestVote (n : RaftNode) : RaftRequestMessage → RaftNode × RaftResponseMessage
  | .requestVote term candidateId lastLogIndex lastLogTerm =>
    if term < n.currentTerm then (n, .requestVoteResponse n.currentTerm false)
    else
      let n := n.observeTerm term
      if n.votedFor.isSome && n.votedFor != some candidateId then
        (n, .requestVoteResponse n.currentTerm false)
      else if logIsUpToDate n.log lastLogIndex lastLogTerm then
        ({ n with votedFor := some candidateId }, .requestVoteResponse n.currentTerm true)
      else (n, .requestVoteResponse n.currentTerm false)
  | _ => (n, .requestVoteResponse n.currentTerm false)

/-- The number of nodes, the node itself included, known to hold the entry of `index`. -/
def replicationCount (n : RaftNode) (index : ℕ) : ℕ :=
  n.matchIndex.toList.countP (fun e => decide (index ≤ e.2)) + 1

/-- One round of the commit loop of `handle_append_entries_response`. -/
def commitEntry (clock : Clock) (n : RaftNode) (e : LogEntry) : RaftNode :=
  if e.term = n.currentTerm ∧ n.commitIndex < e.index ∧
      n.clusterNodes.length + 1 < n.replicationCount e.index * 2 then
    applyCommittedEntries clock { n with commitIndex := e.index }
  else n

def handleAppendEntriesResponse (clock : Clock) (n : RaftNode) (followerId : String) :
    RaftResponseMessage → RaftNode × Outbox
  | .appendEntriesResponse term success matchIndex =>
    if n.currentTerm < term then
      ({ n with currentTerm := term, state := .follower, votedFor := none,
                currentLeaderId := none }, [])
    else if success then
      let n' := { n with
        matchIndex := n.matchIndex.insert followerId matchIndex
        nextIndex := n.nextIndex.insert followerId (matchIndex + 1) }
      (n'.log.foldl (commitEntry clock) n', [])
    else
      let next := n.nextFor followerId
      if 1 < next then
        let n' := { n with nextIndex := n.nextIndex.insert followerId (next - 1) }
        (n', n'.replicateLogToFollower followerId)
      else (n, [])
  | _ => (n, [])

/-- `Handler<RaftRequestMessage>`. -/
def handleRequest (n : RaftNode) : RaftRequestMessage → RaftNode × RaftResponseMessage
  | .requestVote term candidateId lastLogIndex lastLogTerm =>
    n.handleRequestVote (.requestVote term candidateId lastLogIndex lastLogTerm)
  | .appendEntries term leaderId prevLogIndex prevLogTerm entries leaderCommit =>
    n.appendEntries (.appendEntries term leaderId prevLogIndex prevLogTerm entries leaderCommit)
  | .installSnapshot _ _ _ _ _ => (n, .installSnapshotResponse n.currentTerm false)

def act (n : RaftNode) : LocalEvent → RaftNode × Outbox
  | .setClusterNodes nodes => (n.setClusterNodes nodes, [])
  | .addClusterNode nodeId => ((n.addClusterNode nodeId).1, [])
  | .startElection => n.startElection
  | .becomeLeader => n.becomeLeader
  | .sendHeartbeats => (n, n.sendHeartbeats)
  | .clientCommand clock command =>
    let r := n.handleClientCommand clock command
    (r.1, r.2.2)

/-- One call on a single node, with arbitrary arguments. -/
def step (n : RaftNode) : NodeEvent → RaftNode
  | .act event => (n.act event).1
  | .requestVote message => (n.handleRequestVote message).1
  | .appendEntries message => (n.appendEntries message).1
  | .response clock followerId message =>
    (n.handleAppendEntriesResponse clock followerId message).1

section Frames

variable (n : RaftNode)

theorem observeTerm_currentTerm (term : ℕ) :
    (n.observeTerm term).currentTerm = max n.currentTerm term := by
  unfold observeTerm
  split_ifs with h
  · exact (max_eq_right h.le).symm
  · exact (max_eq_left (not_lt.mp h)).symm

theorem observeTerm_of_lt {term : ℕ} (h : n.currentTerm < term) : n.observeTerm term =
    { n with currentTerm := term, state := .follower, votedFor := none } := by
  rw [observeTerm, if_pos h]

theorem observeTerm_of_ge {term : ℕ} (h : term ≤ n.currentTerm) : n.observeTerm term = n := by
  rw [observeTerm, if_neg (not_lt.mpr h)]

@[simp] theorem observeTerm_log (term : ℕ) : (n.observeTerm term).log = n.log := by
  unfold observeTerm; split_ifs <;> rfl

@[simp] theorem observeTerm_commitIndex (term : ℕ) :
    (n.observeTerm term).commitIndex = n.commitIndex := by
  unfold observeTerm; split_ifs <;> rfl

/-- What a client command does: nothing, an append with replication, or an append that a leader
without followers commits at once. -/
theorem handleClientCommand_cases (clock : Clock) (command : ClientCommand) :
    (n.state ≠ .leader ∧ (n.handleClientCommand clock command).1 = n ∧
      (n.handleClientCommand clock command).2.2 = []) ∨
    (n.state = .leader ∧ n.clusterNodes = [] ∧
      (n.handleClientCommand clock command).1 = applyCommittedEntries clock
        { n.appendCommand command.command with commitIndex := nextLogIndex n.log } ∧
      (n.handleClientCommand clock command).2.2 = []) ∨
    (n.state = .leader ∧ (n.handleClientCommand clock command).1 = n.appendCommand command.command ∧
      (n.handleClientCommand clock command).2.2 =
        n.clusterNodes.flatMap (n.appendCommand command.command).replicateLogToFollower) := by
  unfold handleClientCommand
  by_cases hl : n.state = .leader
  · rw [if_pos hl]
    dsimp only
    split_ifs with hempty
    · exact Or.inr (Or.inl ⟨hl, List.isEmpty_iff.mp hempty, rfl, rfl⟩)
    · exact Or.inr (Or.inr ⟨hl, rfl, rfl⟩)
  · rw [if_neg hl]
    exact Or.inl ⟨hl, rfl, rfl⟩

/-- A request of a later term, or of the current one, passes the first two checks of
`append_entries`. -/
def Accepts (term prev prevTerm : ℕ) : Prop :=
  n.currentTerm ≤ term ∧ logConsistent n.log prev prevTerm = true

instance (term prev prevTerm : ℕ) : Decidable (n.Accepts term prev prevTerm) :=
  inferInstanceAs (Decidable (_ ∧ _))

/-- The commit index after an accepted request that left `log`. -/
def commitAfter (log : List LogEntry) (leaderCommit : ℕ) : ℕ :=
  if n.commitIndex < leaderCommit then min leaderCommit (lastLogIndex log) else n.commitIndex

theorem appendEntries_accepted {term : ℕ} {leaderId : String} {prev prevTerm : ℕ}
    {entries : List LogEntry} {leaderCommit : ℕ} (h : n.Accepts term prev prevTerm) :
    n.appendEntries (.appendEntries term leaderId prev prevTerm entries leaderCommit) =
      ({ n.observeTerm term with
          currentLeaderId := some leaderId
          log := (mergeEntries n.log prev entries).1
          commitIndex := n.commitAfter (mergeEntries n.log prev entries).1 leaderCommit },
        .appendEntriesResponse term true (mergeEntries n.log prev entries).2) := by
  have hterm : (n.observeTerm term).currentTerm = term := by
    rw [observeTerm_currentTerm, max_eq_right h.1]
  simp [appendEntries, not_lt.mpr h.1, h.2, commitAfter, hterm]

/-- A refused request changes the term, the role and the known leader at most. -/
theorem appendEntries_refused {term : ℕ} {leaderId : String} {prev prevTerm : ℕ}
    {entries : List LogEntry} {leaderCommit : ℕ} (h : ¬ n.Accepts term prev prevTerm) :
    ∃ leader, (n.appendEntries
      (.appendEntries term leaderId prev prevTerm entries leaderCommit)).1 =
        { n.observeTerm term with currentLeaderId := leader } := by
  by_cases hlt : term < n.currentTerm
  · refine ⟨n.currentLeaderId, ?_⟩
    rw [observeTerm_of_ge n hlt.le]
    simp [appendEntries, hlt]
  · have hbad : logConsistent n.log prev prevTerm = false := by
      rw [← Bool.not_eq_true]
      exact fun hgood => h ⟨not_lt.mp hlt, hgood⟩
    exact ⟨some leaderId, by simp [appendEntries, hlt, hbad]⟩

/-- A vote is refused, or it is given to the only candidate of the term so far, whose log is new
enough. -/
theorem handleRequestVote_cases (term : ℕ) (candidateId : String) (lastIndex lastTerm : ℕ) :
    (∃ voteTerm, n.handleRequestVote (.requestVote term candidateId lastIndex lastTerm) =
      (n.observeTerm term, .requestVoteResponse voteTerm false)) ∨
    (((n.observeTerm term).votedFor = none ∨ (n.observeTerm term).votedFor = some candidateId) ∧
      logIsUpToDate n.log lastIndex lastTerm = true ∧
      n.handleRequestVote (.requestVote term candidateId lastIndex lastTerm) =
        ({ n.observeTerm term with votedFor := some candidateId },
          .requestVoteResponse (n.observeTerm term).currentTerm true)) := by
  by_cases hlt : term < n.currentTerm
  · left
    rw [observeTerm_of_ge n hlt.le]
    exact ⟨n.currentTerm, by simp [handleRequestVote, hlt]⟩
  · simp only [handleRequestVote, hlt, if_false]
    split_ifs with hvoted hnew
    · exact Or.inl ⟨_, rfl⟩
    · refine Or.inr ⟨?_, by simpa using hnew, rfl⟩
      cases hv : (n.observeTerm term).votedFor with
      | none => exact Or.inl rfl
      | some c => exact Or.inr (by simpa [hv] using hvoted)
    · exact Or.inl ⟨_, rfl⟩

/-- The commit loop changes the commit index and what follows from it. The new index is that of
an entry of the current term that enough nodes hold. -/
theorem foldl_commitEntry (clock : Clock) (entries : List LogEntry) (n : RaftNode) :
    ∃ commit applied machine, entries.foldl (commitEntry clock) n =
        { n with commitIndex := commit, lastApplied := applied, stateMachine := machine } ∧
      (commit = n.commitIndex ∨ n.commitIndex < commit ∧
        ∃ e ∈ entries, e.index = commit ∧ e.term = n.currentTerm ∧
          n.clusterNodes.length + 1 < n.replicationCount commit * 2) := by
  induction entries generalizing n with
  | nil => exact ⟨n.commitIndex, n.lastApplied, n.stateMachine, rfl, Or.inl rfl⟩
  | cons e es ih =>
      rw [List.foldl_cons]
      by_cases hc : e.term = n.currentTerm ∧ n.commitIndex < e.index ∧
          n.clusterNodes.length + 1 < n.replicationCount e.index * 2
      · rw [commitEntry, if_pos hc]
        obtain ⟨commit, applied, machine, heq, hcommit⟩ :=
          ih (applyCommittedEntries clock { n with commitIndex := e.index })
        refine ⟨commit, applied, machine, heq, Or.inr ?_⟩
        rcases hcommit with rfl | ⟨hlt, x, hx, hidx, hterm, hmaj⟩
        · exact ⟨hc.2.1, e, List.mem_cons_self, rfl, hc.1, hc.2.2⟩
        · exact ⟨hc.2.1.trans hlt, x, List.mem_cons_of_mem _ hx, hidx, hterm, hmaj⟩
      · rw [commitEntry, if_neg hc]
        obtain ⟨commit, applied, machine, heq, hcommit⟩ := ih n
        refine ⟨commit, applied, machine, heq, ?_⟩
        rcases hcommit with hsame | ⟨hlt, x, hx, hrest⟩
        · exact Or.inl hsame
        · exact Or.inr ⟨hlt, x, List.mem_cons_of_mem _ hx, hrest⟩

/-- The node after a successful response was stored, before the commit loop. -/
def recordMatch (followerId : String) (matchIndex : ℕ) : RaftNode :=
  { n with
    matchIndex := n.matchIndex.insert followerId matchIndex
    nextIndex := n.nextIndex.insert followerId (matchIndex + 1) }

/-- What a response does: nothing, a step down to a later term, a stored `match_index` followed by
the commit loop, or a retry from the index before. -/
theorem handleAppendEntriesResponse_cases (clock : Clock) (followerId : String)
    (message : RaftResponseMessage) :
    n.handleAppendEntriesResponse clock followerId message = (n, []) ∨
    (∃ term, n.currentTerm < term ∧ n.handleAppendEntriesResponse clock followerId message =
      ({ n.observeTerm term with currentLeaderId := none }, [])) ∨
    (∃ term matchIndex, message = .appendEntriesResponse term true matchIndex ∧
      term ≤ n.currentTerm ∧ ∃ commit applied machine,
        n.handleAppendEntriesResponse clock followerId message =
          ({ n.recordMatch followerId matchIndex with
              commitIndex := commit, lastApplied := applied, stateMachine := machine }, []) ∧
        (commit = n.commitIndex ∨ n.commitIndex < commit ∧
          ∃ e ∈ n.log, e.index = commit ∧ e.term = n.currentTerm ∧
            n.clusterNodes.length + 1 <
              (n.recordMatch followerId matchIndex).replicationCount commit * 2)) ∨
    (∃ next, n.handleAppendEntriesResponse clock followerId message =
      ({ n with nextIndex := next },
        replicateLogToFollower { n with nextIndex := next } followerId)) := by
  cases message with
  | requestVoteResponse term voteGranted => exact Or.inl rfl
  | installSnapshotResponse term success => exact Or.inl rfl
  | appendEntriesResponse term success matchIndex =>
      simp only [handleAppendEntriesResponse]
      split_ifs with hlt hsuccess hnext
      · refine Or.inr (Or.inl ⟨term, hlt, ?_⟩)
        rw [observeTerm_of_lt n hlt]
      · subst success
        obtain ⟨commit, applied, machine, heq, hcommit⟩ :=
          foldl_commitEntry clock n.log (n.recordMatch followerId matchIndex)
        refine Or.inr (Or.inr (Or.inl ⟨term, matchIndex, rfl, not_lt.mp hlt,
          commit, applied, machine, ?_, hcommit⟩))
        exact Prod.ext heq rfl
      · exact Or.inr (Or.inr (Or.inr ⟨_, rfl⟩))
      · exact Or.inl rfl

end Frames

end RaftNode

end ActixPura
