import ActixPura.LogAttestation
import ActixPura.RaftLog
import ActixPura.Runs

/-!
# Raft nodes over an unreliable network

Any number of nodes start from `new()`. The network keeps every request and every response that
was ever built, and delivers any of them at any time: messages are delayed, reordered, duplicated
and lost. Each request is kept with the sender's log at the time it was sent. At most one node per
term may become leader, which the admissibility of a run asks of the `become_leader` steps.

`Certified` is the invariant behind all safety results. It is a choice of one log per term, the
log of the term's leader, that attests every log in the system and contains every request's
snapshot.
-/

namespace ActixPura

structure Envelope where
  sender : String
  target : String
  message : RaftRequestMessage
  /-- The log of the sender when the request was built. -/
  senderLog : List LogEntry

structure Answer where
  sender : String
  target : String
  message : RaftResponseMessage

structure RaftNetwork where
  nodes : String → RaftNode
  requests : List Envelope
  responses : List Answer
  /-- The terms and nodes that ran `become_leader` as candidates. -/
  leaders : List (ℕ × String)

inductive NetworkOp
  | act (id : String) (event : LocalEvent)
  | deliver (k : ℕ)
  | answer (clock : Clock) (k : ℕ)

namespace RaftNetwork

def init : RaftNetwork := ⟨RaftNode.new, [], [], []⟩

def envelopes (sender : String) (log : List LogEntry) (outbox : Outbox) : List Envelope :=
  outbox.map (fun p => ⟨sender, p.1, p.2, log⟩)

/-- The terms a node starts to lead by an event. -/
def newLeader (id : String) (n : RaftNode) : LocalEvent → List (ℕ × String)
  | .becomeLeader => if n.state = .candidate then [(n.currentTerm, id)] else []
  | _ => []

def step (s : RaftNetwork) : NetworkOp → RaftNetwork
  | .act id event =>
    let r := (s.nodes id).act event
    { s with
      nodes := Function.update s.nodes id r.1
      requests := s.requests ++ envelopes id r.1.log r.2
      leaders := newLeader id (s.nodes id) event ++ s.leaders }
  | .deliver k =>
    match s.requests[k]? with
    | none => s
    | some m =>
      let r := (s.nodes m.target).handleRequest m.message
      { s with
        nodes := Function.update s.nodes m.target r.1
        responses := s.responses ++ [⟨m.target, m.sender, r.2⟩] }
  | .answer clock k =>
    match s.responses[k]? with
    | none => s
    | some a =>
      let r := (s.nodes a.target).handleAppendEntriesResponse clock a.sender a.message
      { s with
        nodes := Function.update s.nodes a.target r.1
        requests := s.requests ++ envelopes a.target r.1.log r.2 }

theorem step_deliver {s : RaftNetwork} {k : ℕ} {m : Envelope} (hk : s.requests[k]? = some m) :
    s.step (.deliver k) =
      { s with
        nodes := Function.update s.nodes m.target ((s.nodes m.target).handleRequest m.message).1
        responses := s.responses ++
          [⟨m.target, m.sender, ((s.nodes m.target).handleRequest m.message).2⟩] } := by
  simp only [step, hk]

theorem step_answer {s : RaftNetwork} {clock : Clock} {k : ℕ} {a : Answer}
    (hk : s.responses[k]? = some a) :
    s.step (.answer clock k) =
      let r := (s.nodes a.target).handleAppendEntriesResponse clock a.sender a.message
      { s with
        nodes := Function.update s.nodes a.target r.1
        requests := s.requests ++ envelopes a.target r.1.log r.2 } := by
  simp only [step, hk]

/-- At most one node per term becomes leader. -/
def Ok (s : RaftNetwork) : NetworkOp → Prop
  | .act id .becomeLeader => ∀ p ∈ newLeader id (s.nodes id) .becomeLeader,
    ∀ q ∈ s.leaders, q.1 = p.1 → q.2 = p.2
  | _ => True

instance (s : RaftNetwork) : ∀ op, Decidable (s.Ok op)
  | .act id .becomeLeader => inferInstanceAs (Decidable
    (∀ p ∈ newLeader id (s.nodes id) .becomeLeader, ∀ q ∈ s.leaders, q.1 = p.1 → q.2 = p.2))
  | .act _ (.setClusterNodes _) => isTrue trivial
  | .act _ (.addClusterNode _) => isTrue trivial
  | .act _ .startElection => isTrue trivial
  | .act _ .sendHeartbeats => isTrue trivial
  | .act _ (.clientCommand _ _) => isTrue trivial
  | .deliver _ => isTrue trivial
  | .answer _ _ => isTrue trivial

end RaftNetwork

/-- A numbered log whose terms do not decrease and lie between 1 and `bound`. -/
structure GoodLog (bound : ℕ) (log : List LogEntry) : Prop where
  numbered : Numbered log
  sorted : log.Pairwise (fun a b => a.term ≤ b.term)
  bounded : ∀ e ∈ log, 1 ≤ e.term ∧ e.term ≤ bound

namespace GoodLog

variable {bound : ℕ} {log : List LogEntry}

theorem nil (bound : ℕ) : GoodLog bound [] :=
  ⟨Numbered.nil, List.Pairwise.nil, by simp⟩

theorem mono (h : GoodLog bound log) {bound' : ℕ} (hle : bound ≤ bound') : GoodLog bound' log :=
  ⟨h.numbered, h.sorted, fun e he => ⟨(h.bounded e he).1, (h.bounded e he).2.trans hle⟩⟩

theorem restrict (h : GoodLog bound log) {l : List LogEntry} (hl : l <+: log) :
    GoodLog bound l :=
  ⟨h.numbered.restrict hl, h.sorted.sublist hl.sublist, fun e he => h.bounded e (hl.subset he)⟩

theorem concat (h : GoodLog bound log) (hpos : 1 ≤ bound) (command : StateMachineCommand) :
    GoodLog bound (log ++ [⟨bound, log.length + 1, command⟩]) := by
  refine ⟨h.numbered.concat rfl, ?_, ?_⟩
  · rw [List.pairwise_append]
    refine ⟨h.sorted, List.pairwise_singleton _ _, ?_⟩
    intro e he x hx
    rw [List.mem_singleton.mp hx]
    exact (h.bounded e he).2
  · intro e he
    rcases List.mem_append.mp he with he | he
    · exact h.bounded e he
    · rw [List.mem_singleton.mp he]
      exact ⟨hpos, le_rfl⟩

end GoodLog

namespace RaftNetwork

/-- A request is a snapshot of the log of its term's leader. -/
structure Sent (L : ℕ → List LogEntry) (leaders : List (ℕ × String)) (m : Envelope) : Prop where
  addressed : m.target ≠ m.sender
  snapshot : ∀ {term : ℕ} {leaderId : String} {prev prevTerm : ℕ} {entries : List LogEntry}
    {leaderCommit : ℕ},
    m.message = .appendEntries term leaderId prev prevTerm entries leaderCommit →
    (term, m.sender) ∈ leaders ∧ m.senderLog <+: L term ∧
      prevTerm = prevLogTerm m.senderLog prev ∧ (entries = [] ∨ entries = m.senderLog.drop prev)

structure NodeOk (L : ℕ → List LogEntry) (leaders : List (ℕ × String)) (id : String)
    (n : RaftNode) : Prop where
  nodeId : n.nodeId = id
  members : id ∉ n.clusterNodes
  good : GoodLog n.currentTerm n.log
  attested : Attested LogEntry.term L n.log
  leader : n.state = .leader → n.log = L n.currentTerm ∧ (n.currentTerm, id) ∈ leaders
  active : n.state ≠ .follower → 1 ≤ n.currentTerm
  past : ∀ {term : ℕ}, (term, id) ∈ leaders →
    term < n.currentTerm ∨ term = n.currentTerm ∧ n.state = .leader

structure LeaderLogs (L : ℕ → List LogEntry) (leaders : List (ℕ × String)) : Prop where
  good : ∀ term, GoodLog term (L term)
  attested : ∀ term, Attested LogEntry.term L (L term)
  led : ∀ {term : ℕ}, L term ≠ [] → ∃ id, (term, id) ∈ leaders
  unique : ∀ {term : ℕ} {a b : String}, (term, a) ∈ leaders → (term, b) ∈ leaders → a = b

structure Certified (L : ℕ → List LogEntry) (s : RaftNetwork) : Prop where
  logs : LeaderLogs L s.leaders
  nodes : ∀ id, NodeOk L s.leaders id (s.nodes id)
  requests : ∀ m ∈ s.requests, Sent L s.leaders m
  responses : ∀ a ∈ s.responses, a.target ≠ a.sender

theorem certified_init : Certified (fun _ => []) init where
  logs := ⟨fun term => GoodLog.nil term, fun _ => Attested.nil _, fun h => absurd rfl h,
    by simp [init]⟩
  nodes id := ⟨rfl, by simp [init, RaftNode.new], GoodLog.nil _, Attested.nil _,
    by simp [init, RaftNode.new], by simp [init, RaftNode.new], by simp [init]⟩
  requests := by simp [init]
  responses := by simp [init]

variable {L L' : ℕ → List LogEntry} {leaders leaders' : List (ℕ × String)} {s : RaftNetwork}

theorem Sent.mono {m : Envelope} (h : Sent L leaders m) (hL : ∀ t, L t <+: L' t)
    (hsub : ∀ p ∈ leaders, p ∈ leaders') : Sent L' leaders' m := by
  refine ⟨h.addressed, ?_⟩
  intro term leaderId prev prevTerm entries leaderCommit hm
  obtain ⟨hled, hsnap, hprev, hentries⟩ := h.snapshot hm
  exact ⟨hsub _ hled, hsnap.trans (hL term), hprev, hentries⟩

theorem NodeOk.mono {id : String} {n : RaftNode} (h : NodeOk L leaders id n)
    (hL : ∀ t, L t <+: L' t) (hsub : ∀ p ∈ leaders, p ∈ leaders')
    (hpast : ∀ term, (term, id) ∈ leaders' → (term, id) ∈ leaders)
    (hsame : n.state = .leader → L' n.currentTerm = L n.currentTerm) :
    NodeOk L' leaders' id n := by
  refine ⟨h.nodeId, h.members, h.good, h.attested.mono hL, ?_, h.active,
    fun hled => h.past (hpast _ hled)⟩
  intro hstate
  rw [hsame hstate]
  exact ⟨(h.leader hstate).1, hsub _ (h.leader hstate).2⟩

/-- One node changes and sends, possibly while its own term's leader log grows. -/
theorem Certified.update (h : Certified L s) (hL : ∀ t, L t <+: L' t)
    (hsub : ∀ p ∈ s.leaders, p ∈ leaders') (hlogs : LeaderLogs L' leaders') {id : String}
    {n : RaftNode} (hn : NodeOk L' leaders' id n)
    (hpast : ∀ a, a ≠ id → ∀ term, (term, a) ∈ leaders' → (term, a) ∈ s.leaders)
    (hsame : ∀ a, a ≠ id → (s.nodes a).state = .leader →
      L' (s.nodes a).currentTerm = L (s.nodes a).currentTerm)
    (requests : List Envelope) (hreq : ∀ m ∈ requests, Sent L' leaders' m)
    (responses : List Answer) (hres : ∀ a ∈ responses, a.target ≠ a.sender) :
    Certified L' ⟨Function.update s.nodes id n, s.requests ++ requests,
      s.responses ++ responses, leaders'⟩ := by
  refine ⟨hlogs, ?_, ?_, ?_⟩
  · intro a
    by_cases ha : a = id
    · subst a
      simpa only [Function.update_self] using hn
    · simpa only [Function.update_of_ne ha] using
        (h.nodes a).mono hL hsub (hpast a ha) (hsame a ha)
  · intro m hm
    rcases List.mem_append.mp hm with hm | hm
    · exact (h.requests m hm).mono hL hsub
    · exact hreq m hm
  · intro a ha
    rcases List.mem_append.mp ha with ha | ha
    · exact h.responses a ha
    · exact hres a ha

end RaftNetwork

end ActixPura
