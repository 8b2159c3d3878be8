import ActixPura.RaftNode
import ActixPura.Runs

/-!
# One vote per term

A single node receives arbitrary calls with arbitrary messages. The history collects every vote it
gives, to a candidate that asked or to itself. The term never decreases, every vote of the current
term is for `voted_for`, and a vote is only given to a candidate whose last entry is at least as
new as the voter's.
-/

namespace ActixPura

structure Vote where
  term : ℕ
  candidate : String
  /-- Term and index of the candidate's last entry, as the candidate gave them. -/
  candidateLast : ℕ × ℕ
  /-- Term and index of the voter's last entry when it voted. -/
  voterLast : ℕ × ℕ

structure VoteHistory where
  node : RaftNode
  votes : List Vote

namespace VoteHistory

def init (nodeId : String) : VoteHistory := ⟨.new nodeId, []⟩

/-- The votes a call gives. -/
def cast (n : RaftNode) : NodeEvent → List Vote
  | .requestVote (.requestVote term candidateId lastIndex lastTerm) =>
    match (n.handleRequestVote (.requestVote term candidateId lastIndex lastTerm)).2 with
    | .requestVoteResponse voteTerm true => [⟨voteTerm, candidateId, (lastTerm, lastIndex),
        (lastLogTerm n.log, lastLogIndex n.log)⟩]
    | _ => []
  | .act .startElection =>
    if n.state = .leader then []
    else [⟨n.startElection.1.currentTerm, n.nodeId,
      (lastLogTerm n.startElection.1.log, lastLogIndex n.startElection.1.log),
      (lastLogTerm n.log, lastLogIndex n.log)⟩]
  | _ => []

def step (h : VoteHistory) (event : NodeEvent) : VoteHistory :=
  ⟨h.node.step event, cast h.node event ++ h.votes⟩

/-- `(term, index)` pairs in lexicographic order. -/
def AtLeast (a b : ℕ × ℕ) : Prop := b.1 < a.1 ∨ b.1 = a.1 ∧ b.2 ≤ a.2

/-- The term grew, or neither the term nor the vote changed. -/
def Calm (n n' : RaftNode) : Prop :=
  n.currentTerm < n'.currentTerm ∨ n'.currentTerm = n.currentTerm ∧ n'.votedFor = n.votedFor

theorem calm_rfl (n : RaftNode) : Calm n n := Or.inr ⟨rfl, rfl⟩

theorem calm_observeTerm (n : RaftNode) (term : ℕ) : Calm n (n.observeTerm term) := by
  by_cases hlt : n.currentTerm < term
  · rw [RaftNode.observeTerm_of_lt n hlt]
    exact Or.inl hlt
  · rw [RaftNode.observeTerm_of_ge n (not_lt.mp hlt)]
    exact calm_rfl n

theorem calm_appendEntries (n : RaftNode) (message : RaftRequestMessage) :
    Calm n (n.appendEntries message).1 := by
  cases message with
  | requestVote term candidateId lastIndex lastTerm => exact calm_rfl n
  | installSnapshot term leaderId lastIndex lastTerm data => exact calm_rfl n
  | appendEntries term leaderId prev prevTerm entries leaderCommit =>
      by_cases hacc : n.Accepts term prev prevTerm
      · rw [RaftNode.appendEntries_accepted n hacc]
        exact calm_observeTerm n term
      · obtain ⟨leader, hleader⟩ := n.appendEntries_refused hacc
        rw [hleader]
        exact calm_observeTerm n term

theorem calm_response (clock : Clock) (n : RaftNode) (followerId : String)
    (message : RaftResponseMessage) :
    Calm n (n.handleAppendEntriesResponse clock followerId message).1 := by
  rcases n.handleAppendEntriesResponse_cases clock followerId message with
    heq | ⟨term, _, heq⟩ | ⟨_, _, _, _, _, _, _, heq, _⟩ | ⟨_, heq⟩
  · rw [heq]
    exact calm_rfl n
  · rw [heq]
    exact calm_observeTerm n term
  · rw [heq]
    exact calm_rfl n
  · rw [heq]
    exact calm_rfl n

/-- A local event other than an election gives no vote. -/
theorem calm_act (n : RaftNode) {event : LocalEvent} (h : event ≠ .startElection) :
    Calm n (n.act event).1 := by
  cases event with
  | setClusterNodes nodes =>
      simp only [RaftNode.act, RaftNode.setClusterNodes]
      split_ifs
      · exact calm_rfl n
      · exact calm_rfl n
  | addClusterNode nodeId =>
      simp only [RaftNode.act, RaftNode.addClusterNode]
      split_ifs
      · exact calm_rfl n
      · exact calm_rfl n
  | startElection => exact absurd rfl h
  | becomeLeader =>
      simp only [RaftNode.act, RaftNode.becomeLeader]
      split_ifs
      · exact calm_rfl n
      · exact calm_rfl n
  | sendHeartbeats => exact calm_rfl n
  | clientCommand clock command =>
      simp only [RaftNode.act]
      rcases n.handleClientCommand_cases clock command with
        ⟨_, hnode, _⟩ | ⟨_, _, hnode, _⟩ | ⟨_, hnode, _⟩
      · rw [hnode]
        exact calm_rfl n
      · rw [hnode]
        exact calm_rfl n
      · rw [hnode]
        exact calm_rfl n

theorem atLeast_of_logIsUpToDate {log : List LogEntry} {lastIndex lastTerm : ℕ}
    (h : RaftNode.logIsUpToDate log lastIndex lastTerm = true) :
    AtLeast (lastTerm, lastIndex) (lastLogTerm log, lastLogIndex log) := by
  simp only [RaftNode.logIsUpToDate, Bool.or_eq_true, decide_eq_true_eq, Bool.and_eq_true,
    beq_iff_eq] at h
  rcases h with hlt | ⟨heq, hle⟩
  · exact Or.inl hlt
  · exact Or.inr ⟨heq.symm, hle⟩

/-- A call gives no vote and is calm, or it gives one vote, which becomes `voted_for` and does not
contradict an earlier vote of the term. -/
theorem step_cases (n : RaftNode) (event : NodeEvent) :
    (cast n event = [] ∧ Calm n (n.step event)) ∨
    ∃ v, cast n event = [v] ∧ v.term = (n.step event).currentTerm ∧
      (n.step event).votedFor = some v.candidate ∧ AtLeast v.candidateLast v.voterLast ∧
      (n.currentTerm < (n.step event).currentTerm ∨
        (n.step event).currentTerm = n.currentTerm ∧
          (n.votedFor = none ∨ n.votedFor = some v.candidate)) := by
  cases event with
  | appendEntries message => exact Or.inl ⟨rfl, calm_appendEntries n message⟩
  | response clock followerId message =>
      exact Or.inl ⟨rfl, calm_response clock n followerId message⟩
  | act event =>
      by_cases helection : event = .startElection
      · subst event
        by_cases hl : n.state = .leader
        · refine Or.inl ⟨by simp [cast, hl], ?_⟩
          simp only [RaftNode.step, RaftNode.act, RaftNode.startElection, hl, if_true]
          exact calm_rfl n
        · refine Or.inr ⟨_, by simp only [cast, hl, if_false]; rfl, rfl, ?_, ?_, ?_⟩
          · simp [RaftNode.step, RaftNode.act, RaftNode.startElection, hl]
          · simp [RaftNode.startElection, hl, AtLeast]
          · simp [RaftNode.step, RaftNode.act, RaftNode.startElection, hl]
      · refine Or.inl ⟨?_, calm_act n helection⟩
        cases event with
        | startElection => exact absurd rfl helection
        | setClusterNodes nodes => rfl
        | addClusterNode nodeId => rfl
        | becomeLeader => rfl
        | sendHeartbeats => rfl
        | clientCommand clock command => rfl
  | requestVote message =>
      cases message with
      | appendEntries term leaderId prev prevTerm entries leaderCommit =>
          exact Or.inl ⟨rfl, calm_rfl n⟩
      | installSnapshot term leaderId lastIndex lastTerm data => exact Or.inl ⟨rfl, calm_rfl n⟩
      | requestVote term candidateId lastIndex lastTerm =>
          rcases n.handleRequestVote_cases term candidateId lastIndex lastTerm with
            ⟨voteTerm, hvote⟩ | ⟨hfree, hnew, hvote⟩
          · refine Or.inl ⟨by simp [cast, hvote], ?_⟩
            simp only [RaftNode.step, hvote]
            exact calm_observeTerm n term
          · refine Or.inr ⟨⟨_, candidateId, (lastTerm, lastIndex),
              (lastLogTerm n.log, lastLogIndex n.log)⟩, by simp only [cast, hvote]; rfl, ?_⟩
            simp only [RaftNode.step, hvote]
            refine ⟨trivial, trivial, atLeast_of_logIsUpToDate hnew, ?_⟩
            rcases calm_observeTerm n term with hlt | ⟨hterm, hvoted⟩
            · exact Or.inl hlt
            · exact Or.inr ⟨hterm, hvoted ▸ hfree⟩

theorem term_le_step (n : RaftNode) (event : NodeEvent) :
    n.currentTerm ≤ (n.step event).currentTerm := by
  rcases step_cases n event with ⟨_, hlt | ⟨heq, _⟩⟩ | ⟨_, _, _, _, _, hlt | ⟨heq, _⟩⟩
  · exact hlt.le
  · exact heq.ge
  · exact hlt.le
  · exact heq.ge

/-- Votes belong to terms up to the current one, those of the current term to `voted_for`. -/
structure Inv (h : VoteHistory) : Prop where
  past : ∀ v ∈ h.votes, v.term ≤ h.node.currentTerm
  current : ∀ v ∈ h.votes, v.term = h.node.currentTerm → h.node.votedFor = some v.candidate
  unique : ∀ v ∈ h.votes, ∀ v' ∈ h.votes, v.term = v'.term → v.candidate = v'.candidate
  upToDate : ∀ v ∈ h.votes, AtLeast v.candidateLast v.voterLast

theorem inv_step (h : VoteHistory) (event : NodeEvent) (hinv : h.Inv) : (h.step event).Inv := by
  have hle := term_le_step h.node event
  rcases step_cases h.node event with ⟨hcast, hcalm⟩ | ⟨v, hcast, hterm, hvoted, hnew, hfree⟩
  · have hvotes : (h.step event).votes = h.votes := by simp [step, hcast]
    refine ⟨?_, ?_, ?_, ?_⟩
    · rw [hvotes]
      exact fun v hv => (hinv.past v hv).trans hle
    · rw [hvotes]
      intro v hv hvt
      change v.term = (h.node.step event).currentTerm at hvt
      rcases hcalm with hlt | ⟨heq, hsame⟩
      · have hpast := hinv.past v hv
        omega
      · exact hsame.trans (hinv.current v hv (hvt.trans heq))
    · rw [hvotes]
      exact hinv.unique
    · rw [hvotes]
      exact hinv.upToDate
  · have hvotes : (h.step event).votes = v :: h.votes := by simp [step, hcast]
    have hold : ∀ x ∈ h.votes, x.term = v.term → x.candidate = v.candidate := by
      intro x hx hxt
      rw [hterm] at hxt
      have hpast := hinv.past x hx
      rcases hfree with hlt | ⟨heq, hnone | hsome⟩
      · omega
      · have hcurrent := hinv.current x hx (hxt.trans heq)
        rw [hnone] at hcurrent
        cases hcurrent
      · have hcurrent := hinv.current x hx (hxt.trans heq)
        rw [hsome, Option.some.injEq] at hcurrent
        exact hcurrent.symm
    refine ⟨?_, ?_, ?_, ?_⟩
    · rw [hvotes]
      intro x hx
      rcases List.mem_cons.mp hx with rfl | hx
      · exact hterm.le
      · exact (hinv.past x hx).trans hle
    · rw [hvotes]
      intro x hx hxt
      rcases List.mem_cons.mp hx with rfl | hx
      · exact hvoted
      · rw [hold x hx (hxt.trans hterm.symm)]
        exact hvoted
    · rw [hvotes]
      intro x hx y hy hxy
      rcases List.mem_cons.mp hx with hxv | hx
      · rcases List.mem_cons.mp hy with hyv | hy
        · rw [hxv, hyv]
        · rw [hxv] at hxy ⊢
          exact (hold y hy hxy.symm).symm
      · rcases List.mem_cons.mp hy with hyv | hy
        · rw [hyv] at hxy ⊢
          exact hold x hx hxy
        · exact hinv.unique x hx y hy hxy
    · rw [hvotes]
      intro x hx
      rcases List.mem_cons.mp hx with rfl | hx
      · exact hnew
      · exact hinv.upToDate x hx

theorem inv_run (nodeId : String) (events : List NodeEvent) :
    (Runs.run step (init nodeId) events).Inv :=
  Runs.invariant_run_of_mem (fun h event _ hinv => inv_step h event hinv)
    ⟨by simp [init], by simp [init], by simp [init], by simp [init]⟩

/-- For every sequence of calls on one node the term never decreases, each term's votes go to one
candidate, and every vote goes to a candidate whose last entry is at least as new as the voter's
at that moment. -/
theorem vote_safety (nodeId : String) (events : List NodeEvent) :
    (∀ event, (Runs.run step (init nodeId) events).node.currentTerm ≤
      (Runs.run step (init nodeId) (events ++ [event])).node.currentTerm) ∧
    (∀ v ∈ (Runs.run step (init nodeId) events).votes,
      ∀ v' ∈ (Runs.run step (init nodeId) events).votes,
        v.term = v'.term → v.candidate = v'.candidate) ∧
    ∀ v ∈ (Runs.run step (init nodeId) events).votes, AtLeast v.candidateLast v.voterLast := by
  have hinv := inv_run nodeId events
  refine ⟨?_, hinv.unique, hinv.upToDate⟩
  intro event
  rw [Runs.run_append]
  exact term_le_step _ event

end VoteHistory

end ActixPura
