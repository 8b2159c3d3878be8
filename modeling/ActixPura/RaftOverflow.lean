import ActixPura.LeaderCommit

/-!
# The numbers of a Raft node

Terms and indices are of type `u64` in `consensus/raft.rs`, and a node takes them over from its
peers: a term into `current_term`, entries into the log, a `match_index` into the maps of the
leader. Here are the operands of every addition and subtraction that a call makes. The subtractions
never go below zero, since every stored `next_index` is positive. The additions are not guarded: one
that starts from the largest number leaves the range. A run stays in range exactly when no call
starts one from there, and it does so when the numbers of its messages leave room for its length.
-/

namespace ActixPura

open Std (ExtTreeMap)

def u64Max : ℕ := 2 ^ 64 - 1

def LogEntry.Within (b : ℕ) (e : LogEntry) : Prop := e.term ≤ b ∧ e.index ≤ b

/-- No number of the message is above the bound. -/
def RaftRequestMessage.Within (b : ℕ) : RaftRequestMessage → Prop
  | .requestVote term _ lastLogIndex lastLogTerm =>
    term ≤ b ∧ lastLogIndex ≤ b ∧ lastLogTerm ≤ b
  | .appendEntries term _ prevLogIndex prevLogTerm entries leaderCommit =>
    term ≤ b ∧ prevLogIndex ≤ b ∧ prevLogTerm ≤ b ∧ (∀ e ∈ entries, e.Within b) ∧ leaderCommit ≤ b
  | .installSnapshot term _ lastIncludedIndex lastIncludedTerm _ =>
    term ≤ b ∧ lastIncludedIndex ≤ b ∧ lastIncludedTerm ≤ b

def RaftResponseMessage.Within (b : ℕ) : RaftResponseMessage → Prop
  | .requestVoteResponse term _ => term ≤ b
  | .appendEntriesResponse term _ matchIndex => term ≤ b ∧ matchIndex ≤ b
  | .installSnapshotResponse term _ => term ≤ b

def NodeEvent.Within (b : ℕ) : NodeEvent → Prop
  | .act _ => True
  | .requestVote message => message.Within b
  | .appendEntries message => message.Within b
  | .response _ _ message => message.Within b

section Mono

variable {b b' : ℕ}

theorem RaftRequestMessage.Within.mono (hle : b ≤ b') {message : RaftRequestMessage}
    (h : message.Within b) : message.Within b' := by
  cases message with
  | requestVote term candidateId lastIndex lastTerm =>
      exact ⟨h.1.trans hle, h.2.1.trans hle, h.2.2.trans hle⟩
  | installSnapshot term leaderId lastIndex lastTerm data =>
      exact ⟨h.1.trans hle, h.2.1.trans hle, h.2.2.trans hle⟩
  | appendEntries term leaderId prev prevTerm entries leaderCommit =>
      obtain ⟨hterm, hprev, hprevTerm, hentries, hcommit⟩ := h
      refine ⟨hterm.trans hle, hprev.trans hle, hprevTerm.trans hle, fun e he => ?_,
        hcommit.trans hle⟩
      exact ⟨(hentries e he).1.trans hle, (hentries e he).2.trans hle⟩

theorem RaftResponseMessage.Within.mono (hle : b ≤ b') {message : RaftResponseMessage}
    (h : message.Within b) : message.Within b' := by
  cases message with
  | requestVoteResponse term voteGranted => exact h.trans hle
  | appendEntriesResponse term success matchIndex => exact ⟨h.1.trans hle, h.2.trans hle⟩
  | installSnapshotResponse term success => exact h.trans hle

theorem NodeEvent.Within.mono (hle : b ≤ b') {event : NodeEvent} (h : event.Within b) :
    event.Within b' := by
  cases event with
  | act event => trivial
  | requestVote message => exact RaftRequestMessage.Within.mono hle h
  | appendEntries message => exact RaftRequestMessage.Within.mono hle h
  | response clock followerId message => exact RaftResponseMessage.Within.mono hle h

end Mono

/-- The addition of `log.last().map(|entry| entry.index + 1)`. -/
def nextLogIndexSum (log : List LogEntry) : List (ℕ × ℕ) :=
  log.getLast?.toList.map fun e => (e.index, 1)

namespace RaftNode

/-- The operands of the additions of a call. -/
def additions (n : RaftNode) : NodeEvent → List (ℕ × ℕ)
  | .act (.setClusterNodes _) => if n.state = .leader then nextLogIndexSum n.log else []
  | .act .startElection => if n.state = .leader then [] else [(n.currentTerm, 1)]
  | .act .becomeLeader => if n.state = .candidate then nextLogIndexSum n.log else []
  | .act (.clientCommand _ _) => if n.state = .leader then nextLogIndexSum n.log else []
  | .response _ _ (.appendEntriesResponse term success matchIndex) =>
    if n.currentTerm < term then [] else if success then [(matchIndex, 1)] else []
  | _ => []

/-- `next_idx - 1` for a follower. -/
def prevDifference (n : RaftNode) (id : String) : ℕ × ℕ := (n.nextFor id, 1)

def heartbeatDifferences (n : RaftNode) : List (ℕ × ℕ) :=
  if n.state = .leader then n.clusterNodes.map n.prevDifference else []

def replicationDifferences (n : RaftNode) (id : String) : List (ℕ × ℕ) :=
  if n.state = .leader then [n.prevDifference id] else []

/-- The operands of the subtractions of a call. -/
def subtractions (n : RaftNode) : NodeEvent → List (ℕ × ℕ)
  | .act .becomeLeader =>
    if n.state = .candidate then n.becomeLeader.1.heartbeatDifferences else []
  | .act .sendHeartbeats => n.heartbeatDifferences
  | .act (.clientCommand _ command) =>
    if n.state = .leader then
      n.clusterNodes.flatMap (n.appendCommand command.command).replicationDifferences
    else []
  | .response _ followerId (.appendEntriesResponse term success _) =>
    if n.currentTerm < term then []
    else if success then []
    else
      let next := n.nextFor followerId
      if 1 < next then
        n.prevDifference followerId ::
          replicationDifferences { n with nextIndex := n.nextIndex.insert followerId (next - 1) }
            followerId
      else []
  | _ => []

structure NoOverflow (n : RaftNode) (event : NodeEvent) : Prop where
  additions : ∀ p ∈ n.additions event, p.1 + p.2 ≤ u64Max
  subtractions : ∀ p ∈ n.subtractions event, p.2 ≤ p.1

/-- The call adds nothing to the largest number. -/
def Safe (n : RaftNode) : NodeEvent → Prop
  | .act (.setClusterNodes _) => n.state = .leader → lastLogIndex n.log ≠ u64Max
  | .act .startElection => n.state ≠ .leader → n.currentTerm ≠ u64Max
  | .act .becomeLeader => n.state = .candidate → lastLogIndex n.log ≠ u64Max
  | .act (.clientCommand _ _) => n.state = .leader → lastLogIndex n.log ≠ u64Max
  | .response _ _ (.appendEntriesResponse term true matchIndex) =>
    term ≤ n.currentTerm → matchIndex ≠ u64Max
  | _ => True

/-- No number of the node is above the bound, and no `next_index` is zero. -/
structure Bounded (b : ℕ) (n : RaftNode) : Prop where
  term : n.currentTerm ≤ b
  log : ∀ e ∈ n.log, e.Within b
  commit : n.commitIndex ≤ b
  applied : n.lastApplied ≤ b
  next : ∀ (id : String) (k : ℕ), n.nextIndex[id]? = some k → 1 ≤ k ∧ k ≤ b
  matched : ∀ (id : String) (k : ℕ), n.matchIndex[id]? = some k → k ≤ b

variable {b : ℕ} {n : RaftNode}

theorem bounded_new (b : ℕ) (nodeId : String) : Bounded b (new nodeId) where
  term := Nat.zero_le b
  log := by simp [new]
  commit := Nat.zero_le b
  applied := Nat.zero_le b
  next := by simp [new]
  matched := by simp [new]

theorem Bounded.mono (h : Bounded b n) {b' : ℕ} (hle : b ≤ b') : Bounded b' n where
  term := h.term.trans hle
  log e he := ⟨(h.log e he).1.trans hle, (h.log e he).2.trans hle⟩
  commit := h.commit.trans hle
  applied := h.applied.trans hle
  next id k hk := ⟨(h.next id k hk).1, (h.next id k hk).2.trans hle⟩
  matched id k hk := (h.matched id k hk).trans hle

theorem Bounded.nextFor_pos (h : Bounded b n) (id : String) : 1 ≤ n.nextFor id := by
  unfold nextFor
  cases hk : n.nextIndex[id]? with
  | none => exact le_rfl
  | some k => exact (h.next id k hk).1

theorem lastLogIndex_le {log : List LogEntry} (h : ∀ e ∈ log, e.Within b) :
    lastLogIndex log ≤ b := by
  unfold lastLogIndex
  cases hlast : log.getLast? with
  | none => exact Nat.zero_le b
  | some e => exact (h e (List.mem_of_getLast? hlast)).2

theorem mem_nextLogIndexSum {log : List LogEntry} {p : ℕ × ℕ} (hp : p ∈ nextLogIndexSum log) :
    p = (lastLogIndex log, 1) := by
  unfold nextLogIndexSum at hp
  unfold lastLogIndex
  cases hlast : log.getLast? with
  | none => simp [hlast] at hp
  | some e => simpa [hlast] using hp

theorem nextLogIndexSum_le_iff {log : List LogEntry} (hb : 1 ≤ b) :
    (∀ p ∈ nextLogIndexSum log, p.1 + p.2 ≤ b) ↔ lastLogIndex log + 1 ≤ b := by
  unfold nextLogIndexSum lastLogIndex
  cases log.getLast? with
  | none => simpa using hb
  | some e => simp

theorem nextLogIndex_eq (log : List LogEntry) : nextLogIndex log = lastLogIndex log + 1 := by
  unfold nextLogIndex lastLogIndex
  cases log.getLast? <;> rfl

theorem nextLogIndex_pos (log : List LogEntry) : 1 ≤ nextLogIndex log := by
  rw [nextLogIndex_eq]
  exact Nat.le_add_left 1 _

theorem mem_pushEntry_foldl {entries : List LogEntry} {acc : List LogEntry × ℕ} {e : LogEntry}
    (he : e ∈ (entries.foldl pushEntry acc).1) : e ∈ acc.1 ∨ e ∈ entries := by
  induction entries generalizing acc with
  | nil => exact Or.inl he
  | cons x xs ih =>
      rcases ih he with hacc | hxs
      · unfold pushEntry at hacc
        split_ifs at hacc
        · exact Or.inl hacc
        · rcases List.mem_append.mp hacc with hold | hnew
          · exact Or.inl hold
          · exact Or.inr (List.mem_cons.mpr (Or.inl (List.mem_singleton.mp hnew)))
      · exact Or.inr (List.mem_cons_of_mem x hxs)

/-- The entries of a merged log come from the log or from the request. -/
theorem mem_mergeEntries {log entries : List LogEntry} {prev : ℕ} {e : LogEntry}
    (he : e ∈ (mergeEntries log prev entries).1) : e ∈ log ∨ e ∈ entries := by
  unfold mergeEntries at he
  split_ifs at he
  · exact Or.inl he
  · rw [List.mem_insertionSort] at he
    exact (mem_pushEntry_foldl he).imp_left List.mem_of_mem_filter

theorem Bounded.observeTerm (h : Bounded b n) {term : ℕ} (hterm : term ≤ b) :
    Bounded b (n.observeTerm term) := by
  unfold RaftNode.observeTerm
  split_ifs
  · exact { h with term := hterm }
  · exact h

/-- The role, the known leader and the members are no numbers. -/
theorem Bounded.members (h : Bounded b n) (state : RaftNodeState) (leader : Option String)
    (nodes : List String) : Bounded b
      { n with state := state, currentLeaderId := leader, clusterNodes := nodes } :=
  ⟨h.term, h.log, h.commit, h.applied, h.next, h.matched⟩

theorem Bounded.resetReplication (h : Bounded b n) {next : ℕ} (hpos : 1 ≤ next) (hle : next ≤ b)
    (nodes : List String) : Bounded b (n.resetReplication next nodes) where
  term := h.term
  log := h.log
  commit := h.commit
  applied := h.applied
  next id k hk := by
    rw [RaftNode.resetReplication, foldl_insert_lookup] at hk
    split_ifs at hk
    · rw [← Option.some.inj hk]
      exact ⟨hpos, hle⟩
    · exact h.next id k hk
  matched id k hk := by
    rw [resetReplication_matchIndex] at hk
    split_ifs at hk
    · rw [← Option.some.inj hk]
      exact Nat.zero_le b
    · exact h.matched id k hk

theorem Bounded.applyCommittedEntries (h : Bounded b n) (clock : Clock) {index : ℕ}
    (hindex : index ≤ b) :
    Bounded b (RaftNode.applyCommittedEntries clock { n with commitIndex := index }) where
  term := h.term
  log := h.log
  commit := hindex
  applied := max_le h.applied hindex
  next := h.next
  matched := h.matched

theorem Bounded.appendCommand (h : Bounded b n) (hnext : lastLogIndex n.log + 1 ≤ b)
    (command : StateMachineCommand) : Bounded b (n.appendCommand command) where
  term := h.term
  log e he := by
    rcases List.mem_append.mp he with hold | hnew
    · exact h.log e hold
    · rw [List.mem_singleton.mp hnew]
      exact ⟨h.term, (nextLogIndex_eq n.log).trans_le hnext⟩
  commit := h.commit
  applied := h.applied
  next := h.next
  matched := h.matched

theorem Bounded.handleClientCommand (h : Bounded b n) (clock : Clock) (command : ClientCommand)
    (hnext : n.state = .leader → lastLogIndex n.log + 1 ≤ b) :
    Bounded b (n.handleClientCommand clock command).1 := by
  rcases n.handleClientCommand_cases clock command with
    ⟨-, hn, -⟩ | ⟨hl, -, hn, -⟩ | ⟨hl, hn, -⟩
  · rw [hn]
    exact h
  · rw [hn]
    exact (h.appendCommand (hnext hl) command.command).applyCommittedEntries clock
      ((nextLogIndex_eq n.log).trans_le (hnext hl))
  · rw [hn]
    exact h.appendCommand (hnext hl) command.command

theorem Bounded.appendEntries (h : Bounded b n) {message : RaftRequestMessage}
    (hmessage : message.Within b) : Bounded b (n.appendEntries message).1 := by
  cases message with
  | requestVote term candidateId lastIndex lastTerm => exact h
  | installSnapshot term leaderId lastIndex lastTerm data => exact h
  | appendEntries term leaderId prev prevTerm entries leaderCommit =>
      obtain ⟨hterm, -, -, hentries, hcommit⟩ := hmessage
      by_cases haccepts : n.Accepts term prev prevTerm
      · rw [n.appendEntries_accepted haccepts]
        have hmerged : ∀ e ∈ (mergeEntries n.log prev entries).1, e.Within b := fun e he =>
          (mem_mergeEntries he).elim (h.log e) (hentries e)
        refine { h.observeTerm hterm with log := hmerged, commit := ?_ }
        unfold commitAfter
        split_ifs
        · exact (min_le_left _ _).trans hcommit
        · exact h.commit
      · obtain ⟨leader, hn⟩ : ∃ leader, (n.appendEntries
            (.appendEntries term leaderId prev prevTerm entries leaderCommit)).1 =
              { n.observeTerm term with currentLeaderId := leader } :=
          n.appendEntries_refused haccepts
        rw [hn]
        exact (h.observeTerm hterm).members _ leader _

theorem Bounded.handleRequestVote (h : Bounded b n) {message : RaftRequestMessage}
    (hmessage : message.Within b) : Bounded b (n.handleRequestVote message).1 := by
  cases message with
  | appendEntries term leaderId prev prevTerm entries leaderCommit => exact h
  | installSnapshot term leaderId lastIndex lastTerm data => exact h
  | requestVote term candidateId lastIndex lastTerm =>
      rcases n.handleRequestVote_cases term candidateId lastIndex lastTerm with
        ⟨voteTerm, hn⟩ | ⟨-, -, hn⟩
      · rw [hn]
        exact h.observeTerm hmessage.1
      · rw [hn]
        exact { h.observeTerm hmessage.1 with }

theorem Bounded.recordMatch (h : Bounded b n) (followerId : String) {matchIndex : ℕ}
    (hmatch : matchIndex + 1 ≤ b) : Bounded b (n.recordMatch followerId matchIndex) where
  term := h.term
  log := h.log
  commit := h.commit
  applied := h.applied
  next id k hk := by
    rw [RaftNode.recordMatch, ExtTreeMap.getElem?_insert] at hk
    split_ifs at hk
    · rw [← Option.some.inj hk]
      exact ⟨Nat.le_add_left 1 matchIndex, hmatch⟩
    · exact h.next id k hk
  matched id k hk := by
    rw [RaftNode.recordMatch, ExtTreeMap.getElem?_insert] at hk
    split_ifs at hk
    · rw [← Option.some.inj hk]
      exact (Nat.le_succ matchIndex).trans hmatch
    · exact h.matched id k hk

theorem Bounded.handleAppendEntriesResponse (h : Bounded b n) (clock : Clock) (followerId : String)
    {message : RaftResponseMessage} (hmessage : message.Within b)
    (hsum : ∀ p ∈ n.additions (.response clock followerId message), p.1 + p.2 ≤ b) :
    Bounded b (n.handleAppendEntriesResponse clock followerId message).1 := by
  cases message with
  | requestVoteResponse term voteGranted => exact h
  | installSnapshotResponse term success => exact h
  | appendEntriesResponse term success matchIndex =>
      simp only [RaftNode.handleAppendEntriesResponse]
      split_ifs with hlt hsuccess hnext
      · exact { h with term := hmessage.1 }
      · have hmatch : matchIndex + 1 ≤ b := by
          simpa [additions, hlt, hsuccess] using hsum
        have hrecorded := h.recordMatch followerId hmatch
        refine List.foldlRecOn n.log (commitEntry clock) hrecorded fun n' hn' e he => ?_
        unfold commitEntry
        split_ifs
        · exact hn'.applyCommittedEntries clock (h.log e he).2
        · exact hn'
      · refine { h with next := fun id k hk => ?_ }
        rw [ExtTreeMap.getElem?_insert] at hk
        split_ifs at hk
        · rw [← Option.some.inj hk]
          have hle : n.nextFor followerId ≤ b := by
            unfold nextFor at hnext ⊢
            cases hid : n.nextIndex[followerId]? with
            | none => simp [hid] at hnext
            | some k => exact (h.next followerId k hid).2
          omega
        · exact h.next id k hk
      · exact h

/-- A call whose messages and additions respect the bound keeps the node within it. -/
theorem Bounded.step (h : Bounded b n) (hb : 1 ≤ b) {event : NodeEvent} (hevent : event.Within b)
    (hsum : ∀ p ∈ n.additions event, p.1 + p.2 ≤ b) : Bounded b (n.step event) := by
  have hnext : ∀ {role : RaftNodeState}, n.state = role →
      (∀ p ∈ if n.state = role then nextLogIndexSum n.log else [], p.1 + p.2 ≤ b) →
      lastLogIndex n.log + 1 ≤ b := by
    intro role hrole hle
    rw [if_pos hrole] at hle
    exact (nextLogIndexSum_le_iff hb).mp hle
  cases event with
  | requestVote message => exact h.handleRequestVote hevent
  | appendEntries message => exact h.appendEntries hevent
  | response clock followerId message =>
      exact h.handleAppendEntriesResponse clock followerId hevent hsum
  | act event =>
      cases event with
      | setClusterNodes nodes =>
          simp only [RaftNode.step, act, setClusterNodes]
          split_ifs with hl
          · exact (h.members n.state n.currentLeaderId _).resetReplication (nextLogIndex_pos n.log)
              ((nextLogIndex_eq n.log).trans_le (hnext hl hsum)) _
          · exact h.members n.state n.currentLeaderId _
      | addClusterNode nodeId =>
          simp only [RaftNode.step, act, addClusterNode]
          split_ifs
          · exact (h.members n.state n.currentLeaderId _).resetReplication le_rfl hb _
          · exact h
      | startElection =>
          simp only [RaftNode.step, act, startElection]
          split_ifs with hl
          · exact h
          · have hterm : n.currentTerm + 1 ≤ b := by simpa [additions, hl] using hsum
            exact { h with term := hterm }
      | becomeLeader =>
          simp only [RaftNode.step, act, becomeLeader]
          split_ifs with hc
          · exact (h.members .leader (some n.nodeId) _).resetReplication (nextLogIndex_pos n.log)
              ((nextLogIndex_eq n.log).trans_le (hnext hc hsum)) _
          · exact h
      | sendHeartbeats => exact h
      | clientCommand clock command =>
          exact h.handleClientCommand clock command fun hl => hnext hl hsum

/-- A call adds one to a number of the node or of the message. -/
theorem Bounded.additions_le (h : Bounded b n) {event : NodeEvent} (hevent : event.Within b)
    {p : ℕ × ℕ} (hp : p ∈ n.additions event) : p.1 + p.2 ≤ b + 1 := by
  have hlast : ∀ {role : RaftNodeState},
      p ∈ (if n.state = role then nextLogIndexSum n.log else []) → p.1 + p.2 ≤ b + 1 := by
    intro role hrole
    split_ifs at hrole
    · rw [mem_nextLogIndexSum hrole]
      exact Nat.succ_le_succ (lastLogIndex_le h.log)
    · cases hrole
  cases event with
  | requestVote message => cases hp
  | appendEntries message => cases hp
  | response clock followerId message =>
      cases message with
      | requestVoteResponse term voteGranted => cases hp
      | installSnapshotResponse term success => cases hp
      | appendEntriesResponse term success matchIndex =>
          simp only [additions] at hp
          split_ifs at hp
          · cases hp
          · rw [List.mem_singleton.mp hp]
            exact Nat.succ_le_succ hevent.2
          · cases hp
  | act event =>
      cases event with
      | setClusterNodes nodes => exact hlast hp
      | addClusterNode nodeId => cases hp
      | startElection =>
          simp only [additions] at hp
          split_ifs at hp
          · cases hp
          · rw [List.mem_singleton.mp hp]
            exact Nat.succ_le_succ h.term
      | becomeLeader => exact hlast hp
      | sendHeartbeats => cases hp
      | clientCommand clock command => exact hlast hp

theorem mem_heartbeatDifferences {p : ℕ × ℕ} (hp : p ∈ n.heartbeatDifferences) :
    ∃ id, p = n.prevDifference id := by
  unfold heartbeatDifferences at hp
  split_ifs at hp
  · obtain ⟨id, -, rfl⟩ := List.mem_map.mp hp
    exact ⟨id, rfl⟩
  · cases hp

theorem eq_of_mem_replicationDifferences {p : ℕ × ℕ} {id : String}
    (hp : p ∈ n.replicationDifferences id) : p = n.prevDifference id := by
  unfold replicationDifferences at hp
  split_ifs at hp
  · exact List.mem_singleton.mp hp
  · cases hp

/-- One is subtracted from a `next_index` that the node has before or after the call. -/
theorem subtractions_eq {event : NodeEvent} {p : ℕ × ℕ} (hp : p ∈ n.subtractions event) :
    ∃ id, p = n.prevDifference id ∨ p = (n.step event).prevDifference id := by
  cases event with
  | requestVote message => cases hp
  | appendEntries message => cases hp
  | response clock followerId message =>
      cases message with
      | requestVoteResponse term voteGranted => cases hp
      | installSnapshotResponse term success => cases hp
      | appendEntriesResponse term success matchIndex =>
          simp only [subtractions] at hp
          split_ifs at hp with hlt hsuccess hnext
          · cases hp
          · cases hp
          · refine ⟨followerId, (List.mem_cons.mp hp).imp id fun hretry => ?_⟩
            rw [eq_of_mem_replicationDifferences hretry]
            simp [RaftNode.step, handleAppendEntriesResponse, hlt, hsuccess, hnext]
          · cases hp
  | act event =>
      cases event with
      | setClusterNodes nodes => cases hp
      | addClusterNode nodeId => cases hp
      | startElection => cases hp
      | becomeLeader =>
          simp only [subtractions] at hp
          split_ifs at hp
          · exact (mem_heartbeatDifferences hp).imp fun _ h => Or.inr h
          · cases hp
      | sendHeartbeats => exact (mem_heartbeatDifferences hp).imp fun _ h => Or.inl h
      | clientCommand clock command =>
          simp only [subtractions] at hp
          split_ifs at hp
          · obtain ⟨id, -, hid⟩ := List.mem_flatMap.mp hp
            exact ⟨id, Or.inl (eq_of_mem_replicationDifferences hid)⟩
          · cases hp

theorem additions_le_iff (h : Bounded u64Max n) {event : NodeEvent}
    (hevent : event.Within u64Max) :
    (∀ p ∈ n.additions event, p.1 + p.2 ≤ u64Max) ↔ n.Safe event := by
  have hsucc : ∀ {k : ℕ}, k ≤ u64Max → (k + 1 ≤ u64Max ↔ k ≠ u64Max) := by
    intro k hk
    omega
  have hlast : ∀ {role : RaftNodeState},
      (∀ p ∈ if n.state = role then nextLogIndexSum n.log else [], p.1 + p.2 ≤ u64Max) ↔
        (n.state = role → lastLogIndex n.log ≠ u64Max) := by
    intro role
    split_ifs with hrole
    · rw [nextLogIndexSum_le_iff (by decide), hsucc (lastLogIndex_le h.log)]
      exact ⟨fun hne _ => hne, fun hne => hne hrole⟩
    · simp [hrole]
  cases event with
  | requestVote message => simp [additions, Safe]
  | appendEntries message => simp [additions, Safe]
  | response clock followerId message =>
      cases message with
      | requestVoteResponse term voteGranted => simp [additions, Safe]
      | installSnapshotResponse term success => simp [additions, Safe]
      | appendEntriesResponse term success matchIndex =>
          simp only [additions]
          split_ifs with hlt hsuccess
          · cases success <;> simp [Safe, not_le.mpr hlt]
          · subst hsuccess
            simpa [Safe, not_lt.mp hlt] using hsucc hevent.2
          · simp [Safe, Bool.not_eq_true _ ▸ hsuccess]
  | act event =>
      cases event with
      | setClusterNodes nodes => exact hlast
      | addClusterNode nodeId => simp [additions, Safe]
      | startElection =>
          simp only [additions, Safe]
          split_ifs with hl
          · simp [hl]
          · simpa [hl] using hsucc h.term
      | becomeLeader => exact hlast
      | sendHeartbeats => simp [additions, Safe]
      | clientCommand clock command => exact hlast

theorem noOverflow_iff (h : Bounded u64Max n) {event : NodeEvent} (hevent : event.Within u64Max) :
    n.NoOverflow event ↔ n.Safe event := by
  rw [← additions_le_iff h hevent]
  constructor
  · exact NoOverflow.additions
  · intro hsum
    refine ⟨hsum, fun p hp => ?_⟩
    obtain ⟨id, rfl | rfl⟩ := subtractions_eq hp
    · exact h.nextFor_pos id
    · exact (h.step (by decide) hevent hsum).nextFor_pos id

/-- A run of calls with numbers of the range computes in the range exactly when every call was
safe, and then it stores nothing else. -/
theorem noOverflow_run_iff (nodeId : String) (events : List NodeEvent)
    (hevents : ∀ event ∈ events, event.Within u64Max) :
    ((∀ before event after, events = before ++ event :: after →
        (Runs.run step (new nodeId) before).NoOverflow event) ↔
      Runs.Admissible step Safe (new nodeId) events) ∧
    (Runs.Admissible step Safe (new nodeId) events →
      ∀ before after, events = before ++ after →
        Bounded u64Max (Runs.run step (new nodeId) before)) := by
  have hstep : ∀ n event, Bounded u64Max n → event.Within u64Max → n.NoOverflow event →
      Bounded u64Max (n.step event) := fun n event h hevent hno =>
    h.step (by decide) hevent hno.additions
  constructor
  · rw [← Runs.admissible_iff_forall]
    exact Runs.admissible_congr hstep (fun n event h hevent => noOverflow_iff h hevent)
      (bounded_new _ nodeId) hevents
  · rintro hsafe before after rfl
    have hbefore : ∀ event ∈ before, event.Within u64Max := fun event he =>
      hevents event (List.mem_append_left after he)
    have hok : Runs.Admissible step (fun n event => n.Safe event ∧ event.Within u64Max)
        (new nodeId) before := by
      refine Runs.admissible_and.mpr ⟨(Runs.admissible_append.mp hsafe).1, ?_⟩
      refine Runs.admissible_iff_forall.mpr fun first event rest heq => hbefore event ?_
      simp [heq]
    refine Runs.invariant_run (fun n event h hsafe => ?_) (bounded_new _ nodeId) hok
    exact hstep n event h hsafe.2 ((noOverflow_iff h hsafe.2).mpr hsafe.1)

/-- Messages whose numbers leave room for one addition per call are harmless. -/
theorem safe_of_room {n : RaftNode} (h : Bounded b n) (hb : 1 ≤ b) (events : List NodeEvent)
    (hevents : ∀ event ∈ events, event.Within b) (hroom : b + events.length ≤ u64Max) :
    Runs.Admissible step Safe n events := by
  induction events generalizing n b with
  | nil => trivial
  | cons event events ih =>
      have hevent := hevents event List.mem_cons_self
      rw [List.length_cons] at hroom
      have hsum := fun p hp => h.additions_le hevent (p := p) hp
      have hle : b ≤ b + 1 := Nat.le_succ b
      have hnext := (h.mono hle).step (by omega) (.mono hle hevent) hsum
      refine ⟨?_, ih hnext (by omega) ?_ (by omega)⟩
      · have hmax : b ≤ u64Max := by omega
        exact (additions_le_iff (h.mono hmax) (.mono hmax hevent)).mp fun p hp =>
          (hsum p hp).trans (by omega)
      · exact fun x hx => .mono hle (hevents x (List.mem_cons_of_mem event hx))

/-- An election, a command and an acknowledgement. -/
theorem noOverflow_acknowledged :
    (Runs.run step (new "a") [.act .startElection, .act .becomeLeader]).NoOverflow
      (.response (fun _ => (0, 0)) "b" (.appendEntriesResponse 1 true 1)) := by
  refine (noOverflow_run_iff "a" [.act .startElection, .act .becomeLeader,
    .response (fun _ => (0, 0)) "b" (.appendEntriesResponse 1 true 1)] ?_).1.mpr ?_ _ _ [] rfl
  · simp [NodeEvent.Within, RaftResponseMessage.Within, u64Max]
  · refine ⟨fun _ => by decide, fun _ => by decide, fun _ => by decide, trivial⟩

/-- A request of the largest term makes the next election overflow. -/
theorem last_term_overflows : ¬ ∀ (nodeId : String) (events : List NodeEvent),
    (∀ event ∈ events, event.Within u64Max) → ∀ before event after,
      events = before ++ event :: after → (Runs.run step (new nodeId) before).NoOverflow event := by
  intro h
  have hno := h "b" [.appendEntries (.appendEntries u64Max "a" 0 0 [] 0), .act .startElection]
    (by simp [NodeEvent.Within, RaftRequestMessage.Within]) [_] _ [] rfl
  exact absurd (hno.additions (u64Max, 1) (by decide)) (by decide)

end RaftNode

end ActixPura
