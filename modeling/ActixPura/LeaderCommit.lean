import ActixPura.RaftNode
import ActixPura.Runs

/-!
# When a leader's commit has a quorum

`handle_append_entries_response` counts the values of `match_index`. It does not ask whether the
node is still the leader, whether the response belongs to the current term, or whether its sender is
a member of the cluster, and `set_cluster_nodes` does not drop the values of removed nodes. The
history of a single node collects the acknowledgements it received. If successful responses reach a
leader from members and in the current term, and no node with a positive `match_index` is removed,
then every commit rests on a strict majority of acknowledgements of the current term.
-/

namespace ActixPura

open Std (ExtTreeMap)

structure Ack where
  term : ℕ
  follower : String
  matchIndex : ℕ
  deriving DecidableEq

structure AckHistory where
  node : RaftNode
  acks : List Ack

namespace RaftNode

theorem foldl_insert_lookup (v : ℕ) (nodes : List String) (m : ExtTreeMap String ℕ compare)
    (id : String) :
    (nodes.foldl (fun m id => m.insert id v) m)[id]? = if id ∈ nodes then some v else m[id]? := by
  induction nodes generalizing m with
  | nil => simp
  | cons x xs ih =>
      rw [List.foldl_cons, ih, ExtTreeMap.getElem?_insert]
      by_cases hxs : id ∈ xs
      · simp [hxs]
      · by_cases hx : x = id
        · simp [hx]
        · simp [hxs, hx, Ne.symm hx]

theorem resetReplication_matchIndex (n : RaftNode) (next : ℕ) (nodes : List String) (id : String) :
    (n.resetReplication next nodes).matchIndex[id]? =
      if id ∈ nodes then some 0 else n.matchIndex[id]? :=
  foldl_insert_lookup 0 nodes n.matchIndex id

def members (n : RaftNode) : Finset String := insert n.nodeId n.clusterNodes.toFinset

end RaftNode

namespace AckHistory

def init (nodeId : String) : AckHistory := ⟨.new nodeId, []⟩

/-- The acknowledgement a call brings. -/
def received : NodeEvent → List Ack
  | .response _ followerId (.appendEntriesResponse term true matchIndex) =>
    [⟨term, followerId, matchIndex⟩]
  | _ => []

def step (h : AckHistory) (event : NodeEvent) : AckHistory :=
  ⟨h.node.step event, received event ++ h.acks⟩

/-- A node that acknowledged `index` in the current term; the leader itself counts. -/
def Acknowledged (h : AckHistory) (index : ℕ) (id : String) : Prop :=
  id = h.node.nodeId ∨
    ∃ a ∈ h.acks, a.term = h.node.currentTerm ∧ a.follower = id ∧ index ≤ a.matchIndex

instance (h : AckHistory) (index : ℕ) (id : String) : Decidable (h.Acknowledged index id) :=
  inferInstanceAs (Decidable (_ ∨ ∃ a ∈ h.acks, _))

/-- The node leads the term of the entry it committed, and a strict majority of the members
acknowledged the entry in that term. -/
structure Quorum (h : AckHistory) (index : ℕ) : Prop where
  leader : h.node.state = .leader
  current : ∃ e ∈ h.node.log, e.index = index ∧ e.term = h.node.currentTerm
  majority : h.node.members.card < 2 * (h.node.members.filter (h.Acknowledged index)).card

/-- The condition on a call and the node before it. -/
def Expected (h : AckHistory) : NodeEvent → Prop
  | .response _ followerId (.appendEntriesResponse term true _) =>
    term ≤ h.node.currentTerm → h.node.state = .leader ∧ term = h.node.currentTerm ∧
      followerId ∈ h.node.clusterNodes
  | .act (.setClusterNodes nodes) => ∀ e ∈ h.node.matchIndex.toList, 0 < e.2 → e.1 ∈ nodes
  | _ => True

instance (h : AckHistory) : ∀ event, Decidable (h.Expected event)
  | .response _ _ (.appendEntriesResponse _ true _) => inferInstanceAs (Decidable (_ → _ ∧ _))
  | .response _ _ (.appendEntriesResponse _ false _) => isTrue trivial
  | .response _ _ (.requestVoteResponse _ _) => isTrue trivial
  | .response _ _ (.installSnapshotResponse _ _) => isTrue trivial
  | .act (.setClusterNodes _) => inferInstanceAs (Decidable (∀ e ∈ _, _))
  | .act (.addClusterNode _) => isTrue trivial
  | .act .startElection => isTrue trivial
  | .act .becomeLeader => isTrue trivial
  | .act .sendHeartbeats => isTrue trivial
  | .act (.clientCommand _ _) => isTrue trivial
  | .requestVote _ => isTrue trivial
  | .appendEntries _ => isTrue trivial

/-- Positive values of `match_index` belong to members, and at a leader each of them was
acknowledged in the current term. -/
structure Inv (h : AckHistory) : Prop where
  self : h.node.nodeId ∉ h.node.clusterNodes
  tracked : ∀ {id : String} {i : ℕ}, h.node.matchIndex[id]? = some i → 0 < i →
    id ∈ h.node.clusterNodes
  acked : h.node.state = .leader → ∀ {id : String} {i : ℕ}, h.node.matchIndex[id]? = some i →
    0 < i → ⟨h.node.currentTerm, id, i⟩ ∈ h.acks

/-- A step that leaves members and `match_index` and does not make the node a leader. -/
structure Quiet (n n' : RaftNode) : Prop where
  nodeId : n'.nodeId = n.nodeId
  clusterNodes : n'.clusterNodes = n.clusterNodes
  matchIndex : n'.matchIndex = n.matchIndex
  state : n'.state = .leader → n.state = .leader ∧ n'.currentTerm = n.currentTerm

theorem quiet_rfl (n : RaftNode) : Quiet n n := ⟨rfl, rfl, rfl, fun hl => ⟨hl, rfl⟩⟩

theorem quiet_observeTerm (n : RaftNode) (term : ℕ) : Quiet n (n.observeTerm term) := by
  by_cases hlt : n.currentTerm < term
  · rw [RaftNode.observeTerm_of_lt n hlt]
    exact ⟨rfl, rfl, rfl, fun hl => nomatch hl⟩
  · rw [RaftNode.observeTerm_of_ge n (not_lt.mp hlt)]
    exact quiet_rfl n

theorem quiet_appendEntries (n : RaftNode) (message : RaftRequestMessage) :
    Quiet n (n.appendEntries message).1 := by
  cases message with
  | requestVote term candidateId lastIndex lastTerm => exact quiet_rfl n
  | installSnapshot term leaderId lastIndex lastTerm data => exact quiet_rfl n
  | appendEntries term leaderId prev prevTerm entries leaderCommit =>
      have hquiet := quiet_observeTerm n term
      by_cases hacc : n.Accepts term prev prevTerm
      · rw [RaftNode.appendEntries_accepted n hacc]
        exact ⟨hquiet.nodeId, hquiet.clusterNodes, hquiet.matchIndex, hquiet.state⟩
      · obtain ⟨leader, hleader⟩ := n.appendEntries_refused hacc
        rw [hleader]
        exact ⟨hquiet.nodeId, hquiet.clusterNodes, hquiet.matchIndex, hquiet.state⟩

theorem quiet_handleRequestVote (n : RaftNode) (message : RaftRequestMessage) :
    Quiet n (n.handleRequestVote message).1 := by
  cases message with
  | appendEntries term leaderId prev prevTerm entries leaderCommit => exact quiet_rfl n
  | installSnapshot term leaderId lastIndex lastTerm data => exact quiet_rfl n
  | requestVote term candidateId lastIndex lastTerm =>
      have hquiet := quiet_observeTerm n term
      rcases n.handleRequestVote_cases term candidateId lastIndex lastTerm with
        ⟨voteTerm, hvote⟩ | ⟨_, _, hvote⟩
      · rw [hvote]
        exact hquiet
      · rw [hvote]
        exact ⟨hquiet.nodeId, hquiet.clusterNodes, hquiet.matchIndex, hquiet.state⟩

theorem quiet_startElection (n : RaftNode) : Quiet n n.startElection.1 := by
  unfold RaftNode.startElection
  split_ifs with hl
  · exact quiet_rfl n
  · exact ⟨rfl, rfl, rfl, fun hl' => nomatch hl'⟩

theorem quiet_handleClientCommand (clock : Clock) (n : RaftNode) (command : ClientCommand) :
    Quiet n (n.handleClientCommand clock command).1 := by
  rcases n.handleClientCommand_cases clock command with
    ⟨_, hnode, _⟩ | ⟨_, _, hnode, _⟩ | ⟨_, hnode, _⟩
  · rw [hnode]
    exact quiet_rfl n
  · rw [hnode]
    exact ⟨rfl, rfl, rfl, fun hl => ⟨hl, rfl⟩⟩
  · rw [hnode]
    exact ⟨rfl, rfl, rfl, fun hl => ⟨hl, rfl⟩⟩

theorem Inv.of_quiet {h : AckHistory} {n : RaftNode} {acks : List Ack} (hinv : h.Inv)
    (hquiet : Quiet h.node n) (hacks : ∀ a ∈ h.acks, a ∈ acks) : Inv ⟨n, acks⟩ := by
  refine ⟨?_, ?_, ?_⟩
  · change n.nodeId ∉ n.clusterNodes
    rw [hquiet.nodeId, hquiet.clusterNodes]
    exact hinv.self
  · intro id i hi hpos
    change id ∈ n.clusterNodes
    rw [hquiet.clusterNodes]
    exact hinv.tracked (hquiet.matchIndex ▸ hi) hpos
  · intro hl id i hi hpos
    obtain ⟨hlead, hterm⟩ := hquiet.state hl
    have hack := hinv.acked hlead (hquiet.matchIndex ▸ hi) hpos
    change (⟨n.currentTerm, id, i⟩ : Ack) ∈ acks
    rw [hterm]
    exact hacks _ hack

/-- The count of the commit loop is a count of members that acknowledged. -/
theorem Inv.majority {h : AckHistory} (hinv : h.Inv) (hl : h.node.state = .leader) {index : ℕ}
    (hpos : 0 < index)
    (hcount : h.node.clusterNodes.length + 1 < h.node.replicationCount index * 2) :
    h.node.members.card < 2 * (h.node.members.filter (h.Acknowledged index)).card := by
  set held := (h.node.matchIndex.toList.filter (fun e => decide (index ≤ e.2))).map Prod.fst
    with hheld
  have hnodup : held.Nodup := by
    refine List.Pairwise.map _ (fun a b hab => ?_) (ExtTreeMap.distinct_keys_toList.filter _)
    simpa using hab
  have hmem : ∀ id ∈ held, id ∈ h.node.clusterNodes ∧ h.Acknowledged index id := by
    intro id hid
    obtain ⟨⟨id', i⟩, he, rfl⟩ := List.mem_map.mp hid
    obtain ⟨he, hi⟩ := List.mem_filter.mp he
    have hlookup := ExtTreeMap.mem_toList_iff_getElem?_eq_some.mp he
    have hle : index ≤ i := by simpa using hi
    have hi0 : 0 < i := hpos.trans_le hle
    exact ⟨hinv.tracked hlookup hi0, Or.inr ⟨_, hinv.acked hl hlookup hi0, rfl, rfl, hle⟩⟩
  have hcard : (insert h.node.nodeId held.toFinset).card = h.node.replicationCount index := by
    rw [Finset.card_insert_of_notMem, List.toFinset_card_of_nodup hnodup]
    · rw [hheld, List.length_map, ← List.countP_eq_length_filter]
      rfl
    · intro hself
      exact hinv.self (hmem _ (List.mem_toFinset.mp hself)).1
  have hsub : insert h.node.nodeId held.toFinset ⊆
      h.node.members.filter (h.Acknowledged index) := by
    intro id hid
    rcases Finset.mem_insert.mp hid with rfl | hid
    · exact Finset.mem_filter.mpr ⟨Finset.mem_insert_self _ _, Or.inl rfl⟩
    · obtain ⟨hcluster, hack⟩ := hmem id (List.mem_toFinset.mp hid)
      exact Finset.mem_filter.mpr
        ⟨Finset.mem_insert_of_mem (List.mem_toFinset.mpr hcluster), hack⟩
  have hmembers : h.node.members.card ≤ h.node.clusterNodes.length + 1 :=
    (Finset.card_insert_le _ _).trans (Nat.succ_le_succ (List.toFinset_card_le _))
  have hacked := Finset.card_le_card hsub
  rw [hcard] at hacked
  omega

theorem inv_init (nodeId : String) : (init nodeId).Inv :=
  ⟨by simp [init, RaftNode.new], by simp [init, RaftNode.new], by simp [init, RaftNode.new]⟩

/-- Resetting all members leaves no positive value. -/
theorem inv_reset {h : AckHistory} (next : ℕ) {n : RaftNode}
    (hself : n.nodeId ∉ n.clusterNodes) (hmatch : n.matchIndex = h.node.matchIndex)
    (hcluster : ∀ {id : String} {i : ℕ}, h.node.matchIndex[id]? = some i → 0 < i →
      id ∈ n.clusterNodes) : Inv ⟨n.resetReplication next n.clusterNodes, h.acks⟩ := by
  have hzero : ∀ {id : String} {i : ℕ},
      (n.resetReplication next n.clusterNodes).matchIndex[id]? = some i → ¬ 0 < i := by
    intro id i hi hpos
    rw [RaftNode.resetReplication_matchIndex] at hi
    by_cases hmem : id ∈ n.clusterNodes
    · rw [if_pos hmem, Option.some.injEq] at hi
      omega
    · rw [if_neg hmem, hmatch] at hi
      exact hmem (hcluster hi hpos)
  exact ⟨hself, fun hi hpos => absurd hpos (hzero hi),
    fun _ _ _ hi hpos => absurd hpos (hzero hi)⟩

theorem inv_setClusterNodes {h : AckHistory} (hinv : h.Inv) {nodes : List String}
    (hok : h.Expected (.act (.setClusterNodes nodes))) :
    Inv ⟨h.node.setClusterNodes nodes, h.acks⟩ := by
  have hself : h.node.nodeId ∉ nodes.filter (fun id => id != h.node.nodeId) := by
    simp
  have hcluster : ∀ {id : String} {i : ℕ}, h.node.matchIndex[id]? = some i → 0 < i →
      id ∈ nodes.filter (fun id => id != h.node.nodeId) := by
    intro id i hi hpos
    have hmem := hok (id, i) (ExtTreeMap.mem_toList_iff_getElem?_eq_some.mpr hi) hpos
    have hne : id ≠ h.node.nodeId := fun heq => hinv.self (heq ▸ hinv.tracked hi hpos)
    exact List.mem_filter.mpr ⟨hmem, by simpa using hne⟩
  unfold RaftNode.setClusterNodes
  dsimp only
  split_ifs with hl
  · exact inv_reset _ hself rfl hcluster
  · exact ⟨hself, hcluster, fun hl' => absurd hl' hl⟩

theorem inv_addClusterNode {h : AckHistory} (hinv : h.Inv) (nodeId : String) :
    Inv ⟨(h.node.addClusterNode nodeId).1, h.acks⟩ := by
  unfold RaftNode.addClusterNode
  split_ifs with hnew
  · simp only [Bool.and_eq_true, Bool.not_eq_true', bne_iff_ne] at hnew
    have hold : ∀ {id : String} {i : ℕ}, (if id ∈ [nodeId] then some 0
        else h.node.matchIndex[id]?) = some i → 0 < i → h.node.matchIndex[id]? = some i := by
      intro id i hi hpos
      by_cases hid : id ∈ [nodeId]
      · rw [if_pos hid, Option.some.injEq] at hi
        omega
      · rwa [if_neg hid] at hi
    refine ⟨?_, ?_, ?_⟩
    · intro hmem
      rcases List.mem_append.mp hmem with hmem | hmem
      · exact hinv.self hmem
      · exact hnew.2 (List.mem_singleton.mp hmem).symm
    · intro id i hi hpos
      rw [RaftNode.resetReplication_matchIndex] at hi
      exact List.mem_append_left _ (hinv.tracked (hold hi hpos) hpos)
    · intro hl id i hi hpos
      rw [RaftNode.resetReplication_matchIndex] at hi
      exact hinv.acked hl (hold hi hpos) hpos
  · exact hinv

theorem inv_becomeLeader {h : AckHistory} (hinv : h.Inv) :
    Inv ⟨h.node.becomeLeader.1, h.acks⟩ := by
  unfold RaftNode.becomeLeader
  split_ifs with hc
  · exact inv_reset (h := h) (nextLogIndex h.node.log)
      (n := { h.node with state := .leader, currentLeaderId := some h.node.nodeId })
      hinv.self rfl hinv.tracked
  · exact hinv

/-- The history when the value of a response was stored and the commit loop did not run yet. -/
def recorded (h : AckHistory) (followerId : String) (matchIndex : ℕ) : AckHistory :=
  ⟨h.node.recordMatch followerId matchIndex,
    ⟨h.node.currentTerm, followerId, matchIndex⟩ :: h.acks⟩

theorem inv_recorded {h : AckHistory} (hinv : h.Inv) {followerId : String} (matchIndex : ℕ)
    (hmem : followerId ∈ h.node.clusterNodes) : (h.recorded followerId matchIndex).Inv := by
  have hcases : ∀ {id : String} {i : ℕ},
      (h.recorded followerId matchIndex).node.matchIndex[id]? = some i →
        id = followerId ∧ i = matchIndex ∨ h.node.matchIndex[id]? = some i := by
    intro id i hi
    change (h.node.matchIndex.insert followerId matchIndex)[id]? = some i at hi
    rw [ExtTreeMap.getElem?_insert] at hi
    by_cases hid : followerId = id
    · exact Or.inl ⟨hid.symm, by simpa [hid] using hi.symm⟩
    · exact Or.inr (by simpa [hid] using hi)
  refine ⟨hinv.self, ?_, ?_⟩
  · intro id i hi hpos
    rcases hcases hi with ⟨rfl, _⟩ | hold
    · exact hmem
    · exact hinv.tracked hold hpos
  · intro hl id i hi hpos
    rcases hcases hi with ⟨rfl, rfl⟩ | hold
    · exact List.mem_cons_self
    · exact List.mem_cons_of_mem _ (hinv.acked hl hold hpos)

theorem quiet_commit (n : RaftNode) (commit applied : ℕ) (machine : TradingStateMachine) :
    Quiet n { n with commitIndex := commit, lastApplied := applied, stateMachine := machine } :=
  ⟨rfl, rfl, rfl, fun hl => ⟨hl, rfl⟩⟩

/-- An expected response changes nothing that the invariant reads, or it is an acknowledgement
that was stored, and the commit index stays or moves to an entry of the current term that enough
values of `match_index` cover. -/
theorem step_response (h : AckHistory) (clock : Clock) (followerId : String)
    (message : RaftResponseMessage) (hok : h.Expected (.response clock followerId message)) :
    (Quiet h.node (h.step (.response clock followerId message)).node ∧
      (h.step (.response clock followerId message)).node.commitIndex = h.node.commitIndex) ∨
    (h.node.state = .leader ∧ followerId ∈ h.node.clusterNodes ∧
      ∃ matchIndex commit applied machine, h.step (.response clock followerId message) =
        ⟨{ (h.recorded followerId matchIndex).node with
            commitIndex := commit, lastApplied := applied, stateMachine := machine },
          (h.recorded followerId matchIndex).acks⟩ ∧
      (commit = h.node.commitIndex ∨ h.node.commitIndex < commit ∧
        ∃ e ∈ h.node.log, e.index = commit ∧ e.term = h.node.currentTerm ∧
          h.node.clusterNodes.length + 1 <
            (h.recorded followerId matchIndex).node.replicationCount commit * 2)) := by
  simp only [step, RaftNode.step]
  rcases h.node.handleAppendEntriesResponse_cases clock followerId message with
    heq | ⟨term, _, heq⟩ | ⟨term, matchIndex, rfl, hle, commit, applied, machine, heq, hcommit⟩ |
      ⟨_, heq⟩
  · rw [heq]
    exact Or.inl ⟨quiet_rfl _, rfl⟩
  · rw [heq]
    have hquiet := quiet_observeTerm h.node term
    exact Or.inl ⟨⟨hquiet.nodeId, hquiet.clusterNodes, hquiet.matchIndex, hquiet.state⟩, by simp⟩
  · obtain ⟨hleader, rfl, hmem⟩ := hok hle
    rw [heq]
    exact Or.inr ⟨hleader, hmem, matchIndex, commit, applied, machine, rfl, hcommit⟩
  · rw [heq]
    exact Or.inl ⟨⟨rfl, rfl, rfl, fun hl => ⟨hl, rfl⟩⟩, rfl⟩

theorem inv_response {h : AckHistory} (hinv : h.Inv) (clock : Clock) (followerId : String)
    (message : RaftResponseMessage) (hok : h.Expected (.response clock followerId message)) :
    (h.step (.response clock followerId message)).Inv := by
  rcases h.step_response clock followerId message hok with
    ⟨hquiet, _⟩ | ⟨_, hmem, matchIndex, commit, applied, machine, heq, _⟩
  · exact hinv.of_quiet hquiet (fun a ha => List.mem_append_right _ ha)
  · rw [heq]
    exact (inv_recorded hinv matchIndex hmem).of_quiet (quiet_commit _ commit applied machine)
      (fun a ha => ha)

theorem inv_step (h : AckHistory) (event : NodeEvent) (hinv : h.Inv) (hok : h.Expected event) :
    (h.step event).Inv := by
  cases event with
  | requestVote message =>
      exact hinv.of_quiet (quiet_handleRequestVote h.node message) (fun a ha => ha)
  | appendEntries message =>
      exact hinv.of_quiet (quiet_appendEntries h.node message) (fun a ha => ha)
  | response clock followerId message => exact inv_response hinv clock followerId message hok
  | act event =>
      cases event with
      | setClusterNodes nodes => exact inv_setClusterNodes hinv hok
      | addClusterNode nodeId => exact inv_addClusterNode hinv nodeId
      | startElection => exact hinv.of_quiet (quiet_startElection h.node) (fun a ha => ha)
      | becomeLeader => exact inv_becomeLeader hinv
      | sendHeartbeats => exact hinv
      | clientCommand clock command =>
          exact hinv.of_quiet (quiet_handleClientCommand clock h.node command) (fun a ha => ha)

theorem inv_run (nodeId : String) {events : List NodeEvent}
    (h : Runs.Admissible step Expected (init nodeId) events) :
    (Runs.run step (init nodeId) events).Inv :=
  Runs.invariant_run (fun s a hs ha => inv_step s a hs ha) (inv_init nodeId) h

/-- An expected response that raises the commit index does so with a quorum. -/
theorem quorum_of_response {h : AckHistory} (hinv : h.Inv) (clock : Clock) (followerId : String)
    (message : RaftResponseMessage) (hok : h.Expected (.response clock followerId message))
    (hraise : h.node.commitIndex <
      (h.step (.response clock followerId message)).node.commitIndex) :
    Quorum (h.step (.response clock followerId message))
      (h.step (.response clock followerId message)).node.commitIndex := by
  have hinv' := inv_response hinv clock followerId message hok
  rcases h.step_response clock followerId message hok with
    ⟨_, hsame⟩ | ⟨hleader, _, matchIndex, commit, applied, machine, heq, hcommit⟩
  · exact absurd hraise (hsame ▸ lt_irrefl _)
  · rw [heq] at hraise hinv' ⊢
    rcases hcommit with hsame | ⟨_, e, he, hidx, hterm, hmaj⟩
    · exact absurd hraise (hsame ▸ lt_irrefl _)
    · exact ⟨hleader, ⟨e, he, hidx, hterm⟩,
        hinv'.majority hleader (Nat.zero_lt_of_lt hraise) hmaj⟩

/-- In every run of expected calls, a response that raises the commit index raises it to an entry
of the term the node leads, acknowledged in that term by a strict majority of the members. -/
theorem commit_has_quorum (nodeId : String) (events : List NodeEvent) (clock : Clock)
    (followerId : String) (message : RaftResponseMessage)
    (h : Runs.Admissible step Expected (init nodeId)
      (events ++ [NodeEvent.response clock followerId message]))
    (hraise : (Runs.run step (init nodeId) events).node.commitIndex <
      (Runs.run step (init nodeId)
        (events ++ [NodeEvent.response clock followerId message])).node.commitIndex) :
    Quorum (Runs.run step (init nodeId) (events ++ [NodeEvent.response clock followerId message]))
      (Runs.run step (init nodeId)
        (events ++ [NodeEvent.response clock followerId message])).node.commitIndex := by
  obtain ⟨hevents, hlast⟩ := Runs.admissible_append.mp h
  rw [Runs.run_append] at hraise ⊢
  exact quorum_of_response (inv_run nodeId hevents) clock followerId message hlast.1 hraise

/-- A leader with two followers that has appended one command. -/
def leadingRun : List NodeEvent :=
  [.act (.setClusterNodes ["b", "c"]), .act .startElection, .act .becomeLeader,
    .act (.clientCommand (fun _ => (0, 0)) ⟨"1", .adminCommand (.changeConfig "k" "v")⟩)]

/-- Follower `b` acknowledges the command. -/
def firstAck : NodeEvent := .response (fun _ => (0, 0)) "b" (.appendEntriesResponse 1 true 1)

theorem first_ack_has_quorum : Quorum (Runs.run step (init "a") (leadingRun ++ [firstAck])) 1 :=
  commit_has_quorum "a" leadingRun (fun _ => (0, 0)) "b" (.appendEntriesResponse 1 true 1)
    (by decide +kernel) (by decide +kernel)

/-- Both followers are replaced before the acknowledgement arrives. -/
def replacedRun : List NodeEvent := leadingRun ++ [.act (.setClusterNodes ["d", "e"])]

/-- The late response of a removed follower commits the entry, although of the members `a`, `d`
and `e` only `a` holds it. -/
theorem removed_follower_commits :
    (Runs.run step (init "a") replacedRun).node.commitIndex = 0 ∧
    (Runs.run step (init "a") (replacedRun ++ [firstAck])).node.commitIndex = 1 ∧
    ¬ Quorum (Runs.run step (init "a") (replacedRun ++ [firstAck])) 1 := by
  refine ⟨by decide +kernel, by decide +kernel, fun hquorum => ?_⟩
  exact absurd hquorum.majority (by decide +kernel)

end AckHistory

end ActixPura
