import ActixPura.LogMatching

/-!
# Committed entries at the receiver of a request

`append_entries` deletes everything after `prev_log_index` before it appends the entries of a
request, so a late request with fewer entries removes committed ones. It moves `commit_index` to
the smaller of the leader's and the last index, so a request without entries may commit entries
after `prev_log_index` that the leader never had. This module proves when the entries are kept,
along whole runs, and when the commit agrees with the leader's log, at every delivery.
-/

namespace ActixPura

/-- What a step owes to the entries a node has committed. -/
structure Durable (n n' : RaftNode) : Prop where
  monotone : n.commitIndex ≤ n'.commitIndex
  bounded : n'.commitIndex ≤ lastLogIndex n'.log
  kept : n'.log.filter (fun e => e.index ≤ n.commitIndex) =
    n.log.filter (fun e => e.index ≤ n.commitIndex)

/-- Two logs have the same entries at the indices `1, …, c`. -/
def SameUpTo (c : ℕ) (log log' : List LogEntry) : Prop :=
  ∀ i, 1 ≤ i → i ≤ c → entryAt log i = entryAt log' i

namespace RaftNode

/-- An accepted request with entries carries every committed entry after `prev_log_index`. -/
def CarriesCommitted (n : RaftNode) : RaftRequestMessage → Prop
  | .appendEntries term _ prev prevTerm entries _ =>
    n.Accepts term prev prevTerm → entries ≠ [] →
      ∀ e ∈ n.log, prev < e.index → e.index ≤ n.commitIndex →
        ∃ e' ∈ entries, e'.index = e.index ∧ e'.term = e.term
  | _ => True

instance (n : RaftNode) : ∀ message, Decidable (n.CarriesCommitted message)
  | .appendEntries _ _ _ _ _ _ => inferInstanceAs (Decidable (_ → _ ≠ [] → ∀ e ∈ _, _ → _ → _))
  | .requestVote _ _ _ _ => isTrue trivial
  | .installSnapshot _ _ _ _ _ => isTrue trivial

/-- The index to which a request without entries may raise `commit_index`. -/
def offeredCommit (n : RaftNode) (leaderCommit : ℕ) : ℕ := min leaderCommit (lastLogIndex n.log)

end RaftNode

section Logs

variable {log log' : List LogEntry}

theorem sameUpTo_iff_take_eq (h : Numbered log) (h' : Numbered log') (c : ℕ) :
    SameUpTo c log log' ↔ log.take c = log'.take c := by
  constructor
  · intro hsame
    apply List.ext_getElem?
    intro i
    rw [List.getElem?_take, List.getElem?_take]
    split_ifs with hi
    · rw [← h.entryAt_eq, ← h'.entryAt_eq]
      exact hsame (i + 1) (by omega) (by omega)
    · rfl
  · intro htake i hpos hle
    obtain ⟨j, rfl⟩ := Nat.exists_eq_add_of_le' hpos
    rw [h.entryAt_eq, h'.entryAt_eq, ← List.getElem?_take_of_lt (show j < c by omega), htake,
      List.getElem?_take_of_lt (by omega)]

/-- Attested logs with entries of one term at an index agree up to it. -/
theorem take_eq_of_mem {L : ℕ → List LogEntry} (h : Numbered log) (h' : Numbered log')
    (hatt : Attested LogEntry.term L log) (hatt' : Attested LogEntry.term L log')
    {e e' : LogEntry} (he : e ∈ log) (he' : e' ∈ log') (hindex : e'.index = e.index)
    (hterm : e'.term = e.term) : log.take e.index = log'.take e.index := by
  have hget := h.getElem?_index he
  have hget' := h'.getElem?_index he'
  rw [hindex] at hget'
  have htake := hatt.take_eq hatt' hget hget' hterm.symm
  rwa [Nat.sub_add_cancel (h.index_pos he)] at htake

theorem Numbered.exists_mem_index (h : Numbered log) {i : ℕ} (hpos : 0 < i)
    (hle : i ≤ log.length) : ∃ e ∈ log, e.index = i := by
  have hlt : i - 1 < log.length := by omega
  have hget := List.getElem?_eq_getElem hlt
  refine ⟨_, List.mem_of_getElem? hget, ?_⟩
  rw [h _ _ hget]
  omega

end Logs

namespace RaftNetwork

variable {L : ℕ → List LogEntry} {leaders : List (ℕ × String)} {s : RaftNetwork}

section Nodes

variable {id : String} {n : RaftNode}

theorem durable_of_take (hnum : Numbered n.log) {n' : RaftNode} (hnum' : Numbered n'.log)
    (hmono : n.commitIndex ≤ n'.commitIndex) (hle : n'.commitIndex ≤ n'.log.length)
    (htake : n'.log.take n.commitIndex = n.log.take n.commitIndex) : Durable n n' := by
  refine ⟨hmono, hnum'.lastLogIndex_eq ▸ hle, ?_⟩
  rw [hnum'.filter_le, hnum.filter_le, htake]

/-- A step that keeps the log and does not lower the commit index. -/
theorem durable_of_log (hnum : Numbered n.log) {n' : RaftNode} (hlog : n'.log = n.log)
    (hmono : n.commitIndex ≤ n'.commitIndex) (hle : n'.commitIndex ≤ n.log.length) :
    Durable n n' :=
  durable_of_take hnum (hlog ▸ hnum) hmono (hlog ▸ hle) (hlog ▸ rfl)

theorem commitAfter_bounds (n : RaftNode) {log : List LogEntry} (hnum : Numbered log)
    (hle : n.commitIndex ≤ log.length) (leaderCommit : ℕ) :
    n.commitIndex ≤ n.commitAfter log leaderCommit ∧
      n.commitAfter log leaderCommit ≤ log.length := by
  unfold RaftNode.commitAfter
  rw [hnum.lastLogIndex_eq]
  split_ifs with hlt
  · exact ⟨le_min hlt.le hle, min_le_right _ _⟩
  · exact ⟨le_rfl, hle⟩

/-- The log of the sender holds what the receiver has committed. -/
theorem senderLog_take_committed (hlogs : LeaderLogs L leaders) (h : NodeOk L leaders id n)
    {m : Envelope} (hm : Sent L leaders m) {term : ℕ} {leaderId : String} {prev prevTerm : ℕ}
    {entries : List LogEntry} {leaderCommit : ℕ}
    (hmsg : m.message = .appendEntries term leaderId prev prevTerm entries leaderCommit)
    (hacc : n.Accepts term prev prevTerm) (hne : entries ≠ [])
    (hcarries : n.CarriesCommitted m.message) (hle : n.commitIndex ≤ n.log.length) :
    m.senderLog.take n.commitIndex = n.log.take n.commitIndex := by
  obtain ⟨_, hsnap, _, hentries⟩ := hm.snapshot hmsg
  by_cases hprev : n.commitIndex ≤ prev
  · have htake := (agree_upTo_prev hlogs h hm hmsg hacc).2
    have hshort := congrArg (List.take n.commitIndex) htake
    rw [List.take_take, List.take_take, min_eq_left hprev] at hshort
    exact hshort.symm
  · obtain ⟨e, he, hidx⟩ :=
      h.good.numbered.exists_mem_index (i := n.commitIndex) (by omega) hle
    rw [hmsg] at hcarries
    obtain ⟨e', he', hidx', hterm⟩ := hcarries hacc hne e he (by omega) hidx.le
    rw [hentries.resolve_left hne] at he'
    have hagree := take_eq_of_mem h.good.numbered
      ((hlogs.good term).restrict hsnap).numbered h.attested
      ((hlogs.attested term).restrict hsnap) he (List.mem_of_mem_drop he') hidx' hterm
    rw [hidx] at hagree
    exact hagree.symm

theorem durable_handleRequest (hlogs : LeaderLogs L leaders) (h : NodeOk L leaders id n)
    {m : Envelope} (hm : Sent L leaders m) (hcarries : n.CarriesCommitted m.message)
    (hle : n.commitIndex ≤ n.log.length) : Durable n (n.handleRequest m.message).1 := by
  have hnum := h.good.numbered
  cases hmsg : m.message with
  | requestVote term candidateId lastIndex lastTerm =>
      rw [RaftNode.handleRequest]
      rcases n.handleRequestVote_cases term candidateId lastIndex lastTerm with
        ⟨_, hvote⟩ | ⟨_, _, hvote⟩
      · rw [hvote]
        exact durable_of_log hnum (by simp) (by simp) (by simpa using hle)
      · rw [hvote]
        exact durable_of_log hnum (by simp) (by simp) (by simpa using hle)
  | installSnapshot term leaderId lastIndex lastTerm data =>
      exact durable_of_log hnum rfl le_rfl hle
  | appendEntries term leaderId prev prevTerm entries leaderCommit =>
      rw [RaftNode.handleRequest]
      by_cases hacc : n.Accepts term prev prevTerm
      · rw [RaftNode.appendEntries_accepted n hacc]
        by_cases hne : entries = []
        · subst entries
          obtain ⟨hmono, hbound⟩ := commitAfter_bounds n hnum hle leaderCommit
          exact durable_of_log hnum rfl hmono hbound
        · have htake := senderLog_take_committed hlogs h hm hmsg hacc hne hcarries hle
          have hnum' := ((hlogs.good term).restrict (hm.snapshot hmsg).2.1).numbered
          have hlen : n.commitIndex ≤ m.senderLog.length := by
            have hlength := congrArg List.length htake
            rw [List.length_take, List.length_take] at hlength
            omega
          obtain ⟨hmono, hbound⟩ := commitAfter_bounds n hnum' hlen leaderCommit
          rw [mergeEntries_accepted hlogs h hm hmsg hacc hne]
          exact durable_of_take hnum hnum' hmono hbound htake
      · obtain ⟨leader, hleader⟩ := n.appendEntries_refused hacc
        rw [hleader]
        exact durable_of_log hnum (by simp) (by simp) (by simpa using hle)

theorem durable_handleResponse (hnum : Numbered n.log) (clock : Clock) (follower : String)
    (response : RaftResponseMessage) (hle : n.commitIndex ≤ n.log.length) :
    Durable n (n.handleAppendEntriesResponse clock follower response).1 := by
  rcases n.handleAppendEntriesResponse_cases clock follower response with
    heq | ⟨term, _, heq⟩ | ⟨_, _, _, _, commit, _, _, heq, hcommit⟩ | ⟨_, heq⟩
  · rw [heq]
    exact durable_of_log hnum rfl le_rfl hle
  · rw [heq]
    exact durable_of_log hnum (by simp) (by simp) (by simpa using hle)
  · rw [heq]
    rcases hcommit with rfl | ⟨hraise, e, he, rfl, _⟩
    · exact durable_of_log hnum rfl le_rfl hle
    · exact durable_of_log hnum rfl hraise.le (hnum.index_le he)
  · rw [heq]
    exact durable_of_log hnum rfl le_rfl hle

theorem durable_appendCommand (hnum : Numbered n.log) (hle : n.commitIndex ≤ n.log.length)
    (command : StateMachineCommand) {n' : RaftNode}
    (hlog : n'.log = (n.appendCommand command).log) (hmono : n.commitIndex ≤ n'.commitIndex)
    (hbound : n'.commitIndex ≤ n.log.length + 1) : Durable n n' := by
  have hnum' : Numbered (n.appendCommand command).log := hnum.concat hnum.nextLogIndex_eq
  refine durable_of_take hnum (hlog ▸ hnum') hmono ?_ ?_
  · rw [hlog]
    simpa [RaftNode.appendCommand] using hbound
  · rw [hlog, RaftNode.appendCommand]
    exact List.take_append_of_le_length hle

theorem durable_act (hnum : Numbered n.log) (event : LocalEvent)
    (hle : n.commitIndex ≤ n.log.length) : Durable n (n.act event).1 := by
  have hsame : Durable n n := durable_of_log hnum rfl le_rfl hle
  cases event with
  | setClusterNodes nodes =>
      simp only [RaftNode.act, RaftNode.setClusterNodes]
      split_ifs
      · exact durable_of_log hnum rfl le_rfl hle
      · exact durable_of_log hnum rfl le_rfl hle
  | addClusterNode nodeId =>
      simp only [RaftNode.act, RaftNode.addClusterNode]
      split_ifs
      · exact durable_of_log hnum rfl le_rfl hle
      · exact hsame
  | startElection =>
      simp only [RaftNode.act, RaftNode.startElection]
      split_ifs
      · exact hsame
      · exact durable_of_log hnum rfl le_rfl hle
  | becomeLeader =>
      simp only [RaftNode.act, RaftNode.becomeLeader]
      split_ifs
      · exact durable_of_log hnum rfl le_rfl hle
      · exact hsame
  | sendHeartbeats => exact hsame
  | clientCommand clock command =>
      simp only [RaftNode.act]
      rcases n.handleClientCommand_cases clock command with
        ⟨_, hnode, _⟩ | ⟨_, _, hnode, _⟩ | ⟨_, hnode, _⟩
      · rw [hnode]
        exact hsame
      · rw [hnode]
        have hnext : nextLogIndex n.log = n.log.length + 1 := hnum.nextLogIndex_eq
        refine durable_appendCommand hnum hle command.command rfl ?_ hnext.le
        change n.commitIndex ≤ nextLogIndex n.log
        omega
      · rw [hnode]
        exact durable_appendCommand hnum hle command.command rfl le_rfl (hle.trans (Nat.le_succ _))

end Nodes

section Runs

/-- The condition on a delivery: the request carries what its receiver has committed. -/
def KeepsCommitted (s : RaftNetwork) : NetworkOp → Prop
  | .deliver k => ∀ m ∈ s.requests[k]?, (s.nodes m.target).CarriesCommitted m.message
  | _ => True

instance (s : RaftNetwork) : ∀ op, Decidable (s.KeepsCommitted op)
  | .deliver _ => inferInstanceAs (Decidable (∀ m ∈ _, _))
  | .act _ _ => isTrue trivial
  | .answer _ _ => isTrue trivial

def Careful (s : RaftNetwork) (op : NetworkOp) : Prop := s.Ok op ∧ s.KeepsCommitted op

instance (s : RaftNetwork) (op : NetworkOp) : Decidable (s.Careful op) :=
  inferInstanceAs (Decidable (_ ∧ _))

/-- The certificate together with the bound on all commit indices. -/
def Bounded (s : RaftNetwork) : Prop :=
  (∃ L, Certified L s) ∧ ∀ id, (s.nodes id).commitIndex ≤ (s.nodes id).log.length

/-- A step changes one node at most. -/
theorem durable_update (h : Certified L s)
    (hbound : ∀ id, (s.nodes id).commitIndex ≤ (s.nodes id).log.length) {id : String}
    {n : RaftNode} (hn : Durable (s.nodes id) n) :
    ∀ a, Durable (s.nodes a) (Function.update s.nodes id n a) := by
  intro a
  by_cases ha : a = id
  · subst a
    rwa [Function.update_self]
  · rw [Function.update_of_ne ha]
    exact durable_of_log (h.nodes a).good.numbered rfl le_rfl (hbound a)

theorem durable_step (h : Certified L s)
    (hbound : ∀ id, (s.nodes id).commitIndex ≤ (s.nodes id).log.length) {op : NetworkOp}
    (hkeeps : s.KeepsCommitted op) : ∀ a, Durable (s.nodes a) ((s.step op).nodes a) := by
  have hsame : ∀ a, Durable (s.nodes a) (s.nodes a) :=
    fun a => durable_of_log (h.nodes a).good.numbered rfl le_rfl (hbound a)
  cases op with
  | act id event =>
      exact durable_update h hbound (durable_act (h.nodes id).good.numbered event (hbound id))
  | deliver k =>
      cases hk : s.requests[k]? with
      | none => simpa only [step, hk] using hsame
      | some m =>
          rw [step_deliver hk]
          exact durable_update h hbound (durable_handleRequest h.logs (h.nodes m.target)
            (h.requests m (List.mem_of_getElem? hk)) (hkeeps m hk) (hbound m.target))
  | answer clock k =>
      cases hk : s.responses[k]? with
      | none => simpa only [step, hk] using hsame
      | some a =>
          rw [step_answer hk]
          exact durable_update h hbound (durable_handleResponse (h.nodes a.target).good.numbered
            clock a.sender a.message (hbound a.target))

theorem bounded_init : Bounded init := ⟨⟨_, certified_init⟩, fun _ => le_rfl⟩

theorem bounded_step (s : RaftNetwork) (op : NetworkOp) (h : s.Bounded) (hok : s.Careful op) :
    (s.step op).Bounded := by
  obtain ⟨⟨L, hcert⟩, hbound⟩ := h
  obtain ⟨L', hcert'⟩ := certified_step s op ⟨L, hcert⟩ hok.1
  refine ⟨⟨L', hcert'⟩, fun id => ?_⟩
  have hdurable := durable_step hcert hbound hok.2 id
  exact (hcert'.nodes id).good.numbered.lastLogIndex_eq ▸ hdurable.bounded

/-- In every run whose deliveries carry what their receivers have committed, no step of any node
lowers the commit index, moves it beyond the log, or removes or changes a committed entry. -/
theorem committed_durable (ops : List NetworkOp) (op : NetworkOp)
    (h : Runs.Admissible step Careful init (ops ++ [op])) (id : String) :
    Durable ((Runs.run step init ops).nodes id) ((Runs.run step init (ops ++ [op])).nodes id) := by
  obtain ⟨hops, hlast⟩ := Runs.admissible_append.mp h
  obtain ⟨⟨L, hcert⟩, hbound⟩ := Runs.invariant_run bounded_step bounded_init hops
  rw [Runs.run_append]
  exact durable_step hcert hbound hlast.1.2 id

/-- A leader appends two commands. The second request reaches the follower first, is acknowledged
and committed, and a heartbeat tells the follower. -/
def reorderedRun : List NetworkOp :=
  [.act "a" (.setClusterNodes ["b"]), .act "a" .startElection, .act "a" .becomeLeader,
    .act "a" (.clientCommand (fun _ => (0, 0)) ⟨"1", .adminCommand (.changeConfig "k" "v")⟩),
    .act "a" (.clientCommand (fun _ => (0, 0)) ⟨"2", .adminCommand (.changeConfig "k" "w")⟩),
    .deliver 3, .answer (fun _ => (0, 0)) 0, .act "a" .sendHeartbeats, .deliver 4]

theorem duplicate_request_keeps_committed :
    ((Runs.run step init reorderedRun).nodes "b").commitIndex = 2 ∧
    Durable ((Runs.run step init reorderedRun).nodes "b")
      ((Runs.run step init (reorderedRun ++ [NetworkOp.deliver 3])).nodes "b") :=
  ⟨by decide +kernel, committed_durable reorderedRun (.deliver 3) (by decide +kernel) "b"⟩

/-- The first request arrives last and takes the second entry, committed by then, from the
follower. -/
theorem late_request_removes_committed :
    Runs.Admissible step Ok init (reorderedRun ++ [NetworkOp.deliver 2]) ∧
    ((Runs.run step init reorderedRun).nodes "b").commitIndex = 2 ∧
    lastLogIndex ((Runs.run step init (reorderedRun ++ [NetworkOp.deliver 2])).nodes "b").log = 1 ∧
    ¬ Durable ((Runs.run step init reorderedRun).nodes "b")
      ((Runs.run step init (reorderedRun ++ [NetworkOp.deliver 2])).nodes "b") := by
  refine ⟨by decide +kernel, by decide +kernel, by decide +kernel, fun hdurable => ?_⟩
  exact absurd hdurable.bounded (by decide +kernel)

end Runs

section Agreement

/-- A delivery that raises the commit index comes from an accepted request. -/
theorem accepts_of_raise {n : RaftNode} {term : ℕ} {leaderId : String} {prev prevTerm : ℕ}
    {entries : List LogEntry} {leaderCommit : ℕ}
    (hraise : n.commitIndex < (n.appendEntries
      (.appendEntries term leaderId prev prevTerm entries leaderCommit)).1.commitIndex) :
    n.Accepts term prev prevTerm := by
  by_contra hacc
  obtain ⟨leader, hleader⟩ := n.appendEntries_refused hacc
  rw [hleader] at hraise
  simp at hraise

/-- A request with entries leaves the receiver with the sender's log, and one without entries
verifies `prev_log_index` only. The receiver's log then agrees with the sender's up to the new
commit index exactly if both have an entry of the same term there. -/
theorem sameUpTo_raised_iff (hlogs : LeaderLogs L leaders) {id : String} {n : RaftNode}
    (h : NodeOk L leaders id n) {m : Envelope} (hm : Sent L leaders m) {term : ℕ}
    {leaderId : String} {prev prevTerm : ℕ} {entries : List LogEntry} {leaderCommit : ℕ}
    (hmsg : m.message = .appendEntries term leaderId prev prevTerm entries leaderCommit)
    (hraise : n.commitIndex < (n.appendEntries
      (.appendEntries term leaderId prev prevTerm entries leaderCommit)).1.commitIndex) :
    SameUpTo (n.appendEntries
        (.appendEntries term leaderId prev prevTerm entries leaderCommit)).1.commitIndex
      (n.appendEntries (.appendEntries term leaderId prev prevTerm entries leaderCommit)).1.log
      m.senderLog ↔
    entries ≠ [] ∨ ∃ e ∈ n.log, ∃ e' ∈ m.senderLog, e.index = n.offeredCommit leaderCommit ∧
      e'.index = e.index ∧ e'.term = e.term := by
  have hacc := accepts_of_raise hraise
  have hsnap := (hm.snapshot hmsg).2.1
  have hnum := h.good.numbered
  have hnum' := ((hlogs.good term).restrict hsnap).numbered
  rw [RaftNode.appendEntries_accepted n hacc] at hraise ⊢
  by_cases hne : entries = []
  · subst entries
    have hoffer : n.commitAfter n.log leaderCommit = n.offeredCommit leaderCommit := by
      dsimp only [mergeEntries_nil] at hraise
      unfold RaftNode.commitAfter at hraise ⊢
      split_ifs at hraise ⊢ with hlt
      · rfl
      · exact absurd hraise (lt_irrefl _)
    dsimp only [mergeEntries_nil] at hraise ⊢
    rw [hoffer] at hraise ⊢
    rw [sameUpTo_iff_take_eq hnum hnum']
    constructor
    · intro htake
      have hle : n.offeredCommit leaderCommit ≤ n.log.length := by
        rw [RaftNode.offeredCommit, hnum.lastLogIndex_eq]
        exact min_le_right _ _
      obtain ⟨e, he, hidx⟩ := hnum.exists_mem_index (Nat.zero_lt_of_lt hraise) hle
      have hget := hnum.getElem?_index he
      have hpos := hnum.index_pos he
      rw [← List.getElem?_take_of_lt (show e.index - 1 < n.offeredCommit leaderCommit by omega),
        htake, List.getElem?_take_of_lt (by omega)] at hget
      exact Or.inr ⟨e, he, e, List.mem_of_getElem? hget, hidx, rfl, rfl⟩
    · rintro (hcontra | ⟨e, he, e', he', hidx, hindex, hterm⟩)
      · exact absurd rfl hcontra
      · rw [← hidx]
        exact take_eq_of_mem hnum hnum' h.attested ((hlogs.attested term).restrict hsnap) he he'
          hindex hterm
  · rw [mergeEntries_accepted hlogs h hm hmsg hacc hne]
    exact ⟨fun _ => Or.inl hne, fun _ _ _ _ => rfl⟩

/-- In every reachable state, a delivered request that raises its receiver's commit index to `c`
leaves the receiver with the sender's entries at `1, …, c` if and only if the request carries
entries or the two logs have entries of one term at the index it offers. -/
theorem follower_commit_iff (ops : List NetworkOp) (h : Runs.Admissible step Ok init ops) (k : ℕ)
    (m : Envelope) (hk : (Runs.run step init ops).requests[k]? = some m) (term : ℕ)
    (leaderId : String) (prev prevTerm : ℕ) (entries : List LogEntry) (leaderCommit : ℕ)
    (hmsg : m.message = .appendEntries term leaderId prev prevTerm entries leaderCommit)
    (hraise : ((Runs.run step init ops).nodes m.target).commitIndex <
      ((Runs.run step init (ops ++ [NetworkOp.deliver k])).nodes m.target).commitIndex) :
    SameUpTo ((Runs.run step init (ops ++ [NetworkOp.deliver k])).nodes m.target).commitIndex
      ((Runs.run step init (ops ++ [NetworkOp.deliver k])).nodes m.target).log m.senderLog ↔
    entries ≠ [] ∨ ∃ e ∈ ((Runs.run step init ops).nodes m.target).log, ∃ e' ∈ m.senderLog,
      e.index = ((Runs.run step init ops).nodes m.target).offeredCommit leaderCommit ∧
      e'.index = e.index ∧ e'.term = e.term := by
  obtain ⟨L, hcert⟩ := certified_run h
  have hnode : (Runs.run step init (ops ++ [NetworkOp.deliver k])).nodes m.target =
      (((Runs.run step init ops).nodes m.target).appendEntries
        (.appendEntries term leaderId prev prevTerm entries leaderCommit)).1 := by
    rw [Runs.run_append, Runs.run_cons, Runs.run_nil, step_deliver hk, hmsg]
    exact Function.update_self ..
  rw [hnode] at hraise ⊢
  exact sameUpTo_raised_iff hcert.logs (hcert.nodes m.target)
    (hcert.requests m (List.mem_of_getElem? hk)) hmsg hraise

theorem heartbeat_commits_same_entries :
    ∃ m, (Runs.run step init (reorderedRun.take 8)).requests[4]? = some m ∧
      SameUpTo 2 ((Runs.run step init (reorderedRun.take 8 ++ [NetworkOp.deliver 4])).nodes "b").log
        m.senderLog :=
  ⟨_, rfl, (follower_commit_iff (reorderedRun.take 8) (by decide +kernel) 4 _ rfl 1 "a" 2 1 [] 2
    rfl (by decide +kernel)).mpr (Or.inr (by decide +kernel))⟩

/-- Of five nodes, `a` leads the first term and reaches only `b` with its command. Then `c` leads
the second term, and `d` and `e` acknowledge its command. A heartbeat tells `b`. -/
def deposedRun : List NetworkOp :=
  [.act "a" (.setClusterNodes ["b", "c", "d", "e"]), .act "a" .startElection,
    .act "a" .becomeLeader,
    .act "a" (.clientCommand (fun _ => (0, 0)) ⟨"1", .adminCommand (.changeConfig "k" "v")⟩),
    .deliver 8, .deliver 5,
    .act "c" (.setClusterNodes ["a", "b", "d", "e"]), .act "c" .startElection,
    .act "c" .becomeLeader,
    .act "c" (.clientCommand (fun _ => (0, 0)) ⟨"2", .adminCommand (.changeConfig "k" "w")⟩),
    .deliver 22, .deliver 23, .answer (fun _ => (0, 0)) 2, .answer (fun _ => (0, 0)) 3,
    .act "c" .sendHeartbeats]

/-- Follower `b` commits the command of the deposed leader, which `c` never had. -/
theorem heartbeat_commits_deposed_entry :
    Runs.Admissible step Ok init deposedRun ∧
    ∃ m, (Runs.run step init deposedRun).requests[25]? = some m ∧ m.target = "b" ∧
      ((Runs.run step init deposedRun).nodes "b").commitIndex = 0 ∧
      ((Runs.run step init (deposedRun ++ [NetworkOp.deliver 25])).nodes "b").commitIndex = 1 ∧
      ¬ SameUpTo 1 ((Runs.run step init (deposedRun ++ [NetworkOp.deliver 25])).nodes "b").log
        m.senderLog := by
  refine ⟨by decide +kernel, _, rfl, rfl, by decide +kernel, by decide +kernel, fun hsame => ?_⟩
  have hentry := congrArg (Option.map LogEntry.term) (hsame 1 le_rfl le_rfl)
  exact absurd hentry (by decide +kernel)

end Agreement

end RaftNetwork

end ActixPura
