import ActixPura.RaftNetwork

/-!
# Log matching

Every step of the network keeps the certificate. A request that is accepted with entries leaves the
receiver with exactly the log its sender had, because the receiver's log and the snapshot agree up
to `prev_log_index`. A leader that appends extends the log of its own term, and a new leader opens
the log of a term that nobody led before. Log matching is then a property of attested logs.
-/

namespace ActixPura

namespace RaftNetwork

variable {L : ℕ → List LogEntry} {leaders : List (ℕ × String)} {s : RaftNetwork}

section Nodes

variable {id : String} {n : RaftNode}

theorem NodeOk.of_frame (h : NodeOk L leaders id n) {n' : RaftNode} (hid : n'.nodeId = n.nodeId)
    (hlog : n'.log = n.log) (hterm : n'.currentTerm = n.currentTerm) (hstate : n'.state = n.state)
    (hmem : id ∉ n'.clusterNodes) : NodeOk L leaders id n' := by
  refine ⟨hid.trans h.nodeId, hmem, ?_, ?_, ?_, ?_, ?_⟩
  · rw [hterm, hlog]
    exact h.good
  · rw [hlog]
    exact h.attested
  · rw [hstate, hterm, hlog]
    exact h.leader
  · rw [hstate, hterm]
    exact h.active
  · rw [hstate, hterm]
    exact h.past

theorem NodeOk.observeTerm (h : NodeOk L leaders id n) (term : ℕ) :
    NodeOk L leaders id (n.observeTerm term) := by
  by_cases hlt : n.currentTerm < term
  · rw [RaftNode.observeTerm_of_lt n hlt]
    refine ⟨h.nodeId, h.members, h.good.mono hlt.le, h.attested, by simp, by simp, ?_⟩
    intro t ht
    left
    rcases h.past ht with hpast | ⟨rfl, _⟩
    · exact hpast.trans hlt
    · exact hlt
  · rw [RaftNode.observeTerm_of_ge n (not_lt.mp hlt)]
    exact h

theorem sent_heartbeat (h : NodeOk L leaders id n) (hl : n.state = .leader) {target : String}
    (ht : target ≠ id) : Sent L leaders ⟨id, target, n.heartbeat target, n.log⟩ := by
  obtain ⟨hlog, hled⟩ := h.leader hl
  refine ⟨ht, ?_⟩
  intro term leaderId prev prevTerm entries leaderCommit hm
  simp only [RaftNode.heartbeat, RaftRequestMessage.appendEntries.injEq] at hm
  obtain ⟨rfl, _, rfl, rfl, rfl, _⟩ := hm
  exact ⟨hled, by rw [← hlog], rfl, Or.inl rfl⟩

theorem sent_replication (h : NodeOk L leaders id n) (hl : n.state = .leader) {target : String}
    (ht : target ≠ id) : Sent L leaders ⟨id, target, n.replication target, n.log⟩ := by
  obtain ⟨hlog, hled⟩ := h.leader hl
  refine ⟨ht, ?_⟩
  intro term leaderId prev prevTerm entries leaderCommit hm
  simp only [RaftNode.replication, RaftRequestMessage.appendEntries.injEq] at hm
  obtain ⟨rfl, _, rfl, rfl, rfl, _⟩ := hm
  exact ⟨hled, by rw [← hlog], rfl, Or.inr (h.good.numbered.filter_ge _)⟩

theorem sent_sendHeartbeats (h : NodeOk L leaders id n) :
    ∀ m ∈ envelopes id n.log n.sendHeartbeats, Sent L leaders m := by
  intro m hm
  obtain ⟨p, hp, rfl⟩ := List.mem_map.mp hm
  unfold RaftNode.sendHeartbeats at hp
  split_ifs at hp with hl
  · obtain ⟨target, htarget, rfl⟩ := List.mem_map.mp hp
    exact sent_heartbeat h hl (fun heq => h.members (heq ▸ htarget))
  · simp at hp

theorem sent_replicateLogToFollower (h : NodeOk L leaders id n) {target : String}
    (ht : target ≠ id) :
    ∀ m ∈ envelopes id n.log (n.replicateLogToFollower target), Sent L leaders m := by
  intro m hm
  obtain ⟨p, hp, rfl⟩ := List.mem_map.mp hm
  unfold RaftNode.replicateLogToFollower at hp
  split_ifs at hp with hl
  · rw [List.mem_singleton.mp hp]
    exact sent_replication h hl ht
  · simp at hp

/-- The receiver of an accepted request and its sender agree up to `prev_log_index`. -/
theorem agree_upTo_prev (hlogs : LeaderLogs L leaders) (h : NodeOk L leaders id n)
    {m : Envelope} (hm : Sent L leaders m) {term : ℕ} {leaderId : String} {prev prevTerm : ℕ}
    {entries : List LogEntry} {leaderCommit : ℕ}
    (hmsg : m.message = .appendEntries term leaderId prev prevTerm entries leaderCommit)
    (hacc : n.Accepts term prev prevTerm) :
    prev ≤ n.log.length ∧ n.log.take prev = m.senderLog.take prev := by
  obtain ⟨_, hsnap, hprevTerm, _⟩ := hm.snapshot hmsg
  have hnum := ((hlogs.good term).restrict hsnap).numbered
  have hatt := (hlogs.attested term).restrict hsnap
  rcases h.good.numbered.logConsistent_iff.mp hacc.2 with rfl | ⟨e, he, hidx, hterm⟩
  · simp
  · have hmem := List.mem_of_getElem? he
    have hpos := h.good.numbered.index_pos hmem
    refine ⟨hidx ▸ h.good.numbered.index_le hmem, h.attested.splice hatt (Or.inr ?_)⟩
    rw [hprevTerm, hnum.prevLogTerm_eq, if_neg (by omega)] at hterm
    cases hget : m.senderLog[prev - 1]? with
    | none =>
        have hone := (h.good.bounded e hmem).1
        rw [hterm, hget] at hone
        simp at hone
    | some e' =>
        rw [hget] at hterm
        exact ⟨e, e', he, rfl, hterm⟩

/-- The receiver of accepted entries ends up with the sender's log. -/
theorem mergeEntries_accepted (hlogs : LeaderLogs L leaders) (h : NodeOk L leaders id n)
    {m : Envelope} (hm : Sent L leaders m) {term : ℕ} {leaderId : String} {prev prevTerm : ℕ}
    {entries : List LogEntry} {leaderCommit : ℕ}
    (hmsg : m.message = .appendEntries term leaderId prev prevTerm entries leaderCommit)
    (hacc : n.Accepts term prev prevTerm) (hne : entries ≠ []) :
    mergeEntries n.log prev entries = (m.senderLog, m.senderLog.length) := by
  obtain ⟨_, hsnap, _, hentries⟩ := hm.snapshot hmsg
  have hentries : entries = m.senderLog.drop prev := hentries.resolve_left hne
  have hlt : prev < m.senderLog.length := by
    by_contra hge
    exact hne (hentries.trans (List.drop_eq_nil_of_le (not_lt.mp hge)))
  obtain ⟨hle, htake⟩ := agree_upTo_prev hlogs h hm hmsg hacc
  have hjoin : n.log.take prev ++ entries = m.senderLog := by
    rw [htake, hentries, List.take_append_drop]
  have hnum := ((hlogs.good term).restrict hsnap).numbered
  rw [h.good.numbered.mergeEntries_eq hne hle (hjoin ▸ hnum), hjoin, hentries, List.length_drop]
  exact Prod.ext rfl (by dsimp only; omega)

/-- Every request the node handles leaves it certified. -/
theorem NodeOk.handleRequest (hlogs : LeaderLogs L leaders) {m : Envelope}
    (h : NodeOk L leaders m.target n) (hm : Sent L leaders m) :
    NodeOk L leaders m.target (n.handleRequest m.message).1 := by
  cases hmsg : m.message with
  | requestVote term candidateId lastIndex lastTerm =>
      have hterm := h.observeTerm term
      rw [RaftNode.handleRequest]
      rcases n.handleRequestVote_cases term candidateId lastIndex lastTerm with
        ⟨_, hvote⟩ | ⟨_, _, hvote⟩
      · rw [hvote]
        exact hterm
      · rw [hvote]
        exact hterm.of_frame rfl rfl rfl rfl hterm.members
  | installSnapshot term leaderId lastIndex lastTerm data => exact h
  | appendEntries term leaderId prev prevTerm entries leaderCommit =>
      have hterm := h.observeTerm term
      rw [RaftNode.handleRequest]
      by_cases hacc : n.Accepts term prev prevTerm
      · rw [RaftNode.appendEntries_accepted n hacc]
        by_cases hne : entries = []
        · subst entries
          exact hterm.of_frame rfl (n.observeTerm_log term).symm rfl rfl hterm.members
        · obtain ⟨hled, hsnap, _⟩ := hm.snapshot hmsg
          have hgood := (hlogs.good term).restrict hsnap
          have hcurrent : (n.observeTerm term).currentTerm = term := by
            rw [RaftNode.observeTerm_currentTerm, max_eq_right hacc.1]
          have hnotLeader : (n.observeTerm term).state ≠ .leader := by
            intro hstate
            have hmem := (hterm.leader hstate).2
            rw [hcurrent] at hmem
            exact hm.addressed (hlogs.unique hmem hled)
          rw [mergeEntries_accepted hlogs h hm hmsg hacc hne]
          refine ⟨hterm.nodeId, hterm.members, ?_, (hlogs.attested term).restrict hsnap,
            fun hstate => absurd hstate hnotLeader, hterm.active, hterm.past⟩
          simpa only [hcurrent] using hgood
      · obtain ⟨leader, hleader⟩ := n.appendEntries_refused hacc
        rw [hleader]
        exact hterm.of_frame rfl rfl rfl rfl hterm.members

/-- The handling of a response leaves the node certified, and so are the requests it sends. -/
theorem NodeOk.handleResponse (h : NodeOk L leaders id n) (clock : Clock) {follower : String}
    (hf : follower ≠ id) (response : RaftResponseMessage) :
    NodeOk L leaders id (n.handleAppendEntriesResponse clock follower response).1 ∧
      ∀ m ∈ envelopes id (n.handleAppendEntriesResponse clock follower response).1.log
        (n.handleAppendEntriesResponse clock follower response).2, Sent L leaders m := by
  rcases n.handleAppendEntriesResponse_cases clock follower response with
    heq | ⟨term, _, heq⟩ | ⟨_, _, _, _, _, _, _, heq, _⟩ | ⟨next, heq⟩
  · rw [heq]
    exact ⟨h, by simp [envelopes]⟩
  · rw [heq]
    have hterm := h.observeTerm term
    exact ⟨hterm.of_frame rfl rfl rfl rfl hterm.members, by simp [envelopes]⟩
  · rw [heq]
    exact ⟨h.of_frame rfl rfl rfl rfl h.members, by simp [envelopes]⟩
  · rw [heq]
    have hback : NodeOk L leaders id { n with nextIndex := next } :=
      h.of_frame rfl rfl rfl rfl h.members
    exact ⟨hback, sent_replicateLogToFollower hback hf⟩

end Nodes

section Steps

theorem Certified.replace (h : Certified L s) {id : String} {n : RaftNode}
    (hn : NodeOk L s.leaders id n) (requests : List Envelope)
    (hreq : ∀ m ∈ requests, Sent L s.leaders m) (responses : List Answer)
    (hres : ∀ a ∈ responses, a.target ≠ a.sender) :
    Certified L ⟨Function.update s.nodes id n, s.requests ++ requests,
      s.responses ++ responses, s.leaders⟩ :=
  h.update (fun _ => List.prefix_rfl) (fun _ hp => hp) h.logs hn (fun _ _ _ hp => hp)
    (fun _ _ _ => rfl) requests hreq responses hres

theorem Certified.deliver (h : Certified L s) (k : ℕ) : Certified L (s.step (.deliver k)) := by
  cases hk : s.requests[k]? with
  | none => simpa only [step, hk] using h
  | some m =>
      have hm := h.requests m (List.mem_of_getElem? hk)
      have hnew := h.replace ((h.nodes m.target).handleRequest h.logs hm) [] (by simp)
        [⟨m.target, m.sender, ((s.nodes m.target).handleRequest m.message).2⟩]
        (by simpa using Ne.symm hm.addressed)
      rw [step_deliver hk]
      simpa only [List.append_nil] using hnew

theorem Certified.answer (h : Certified L s) (clock : Clock) (k : ℕ) :
    Certified L (s.step (.answer clock k)) := by
  cases hk : s.responses[k]? with
  | none => simpa only [step, hk] using h
  | some a =>
      have hne := h.responses a (List.mem_of_getElem? hk)
      obtain ⟨hn, hreq⟩ := (h.nodes a.target).handleResponse clock (Ne.symm hne) a.message
      have hnew := h.replace hn _ hreq [] (by simp)
      rw [step_answer hk]
      simpa only [List.append_nil] using hnew

theorem Certified.acts (h : Certified L s) {id : String} {event : LocalEvent}
    (hnew : newLeader id (s.nodes id) event = [])
    (hn : NodeOk L s.leaders id ((s.nodes id).act event).1)
    (hreq : ∀ m ∈ envelopes id ((s.nodes id).act event).1.log ((s.nodes id).act event).2,
      Sent L s.leaders m) : Certified L (s.step (.act id event)) := by
  have hstep := h.replace hn _ hreq [] (by simp)
  simpa only [step, hnew, List.append_nil, List.nil_append] using hstep

theorem prefix_update {term : ℕ} {log : List LogEntry} (hlog : L term <+: log) :
    ∀ t, L t <+: Function.update L term log t := by
  intro t
  by_cases ht : t = term
  · subst t
    rwa [Function.update_self]
  · rw [Function.update_of_ne ht]

/-- The log of one term grows, or is opened. -/
theorem LeaderLogs.grow (h : LeaderLogs L leaders) {term : ℕ} {log : List LogEntry}
    (hlog : L term <+: log) (hgood : GoodLog term log)
    (hatt : Attested LogEntry.term (Function.update L term log) log)
    {leaders' : List (ℕ × String)} (hsub : ∀ p ∈ leaders, p ∈ leaders')
    (hled : ∃ id, (term, id) ∈ leaders')
    (hunique : ∀ {t : ℕ} {a b : String}, (t, a) ∈ leaders' → (t, b) ∈ leaders' → a = b) :
    LeaderLogs (Function.update L term log) leaders' := by
  refine ⟨?_, ?_, ?_, hunique⟩
  · intro t
    by_cases ht : t = term
    · subst t
      rwa [Function.update_self]
    · rw [Function.update_of_ne ht]
      exact h.good t
  · intro t
    by_cases ht : t = term
    · subst t
      rwa [Function.update_self]
    · rw [Function.update_of_ne ht]
      exact (h.attested t).mono (prefix_update hlog)
  · intro t hne
    by_cases ht : t = term
    · exact ht ▸ hled
    · rw [Function.update_of_ne ht] at hne
      obtain ⟨id, hid⟩ := h.led hne
      exact ⟨id, hsub _ hid⟩

/-- A leader extends the log of its own term. -/
theorem Certified.lead (h : Certified L s) {id : String} (hl : (s.nodes id).state = .leader)
    (command : StateMachineCommand) :
    ∃ L', (∀ t, L t <+: L' t) ∧ LeaderLogs L' s.leaders ∧
      NodeOk L' s.leaders id ((s.nodes id).appendCommand command) ∧
      ∀ a, a ≠ id → (s.nodes a).state = .leader →
        L' (s.nodes a).currentTerm = L (s.nodes a).currentTerm := by
  have hok := h.nodes id
  obtain ⟨hlog, hled⟩ := hok.leader hl
  have hpos : 1 ≤ (s.nodes id).currentTerm := hok.active (by simp [hl])
  let e : LogEntry := ⟨(s.nodes id).currentTerm, nextLogIndex (s.nodes id).log, command⟩
  let log := (s.nodes id).log ++ [e]
  let L' := Function.update L (s.nodes id).currentTerm log
  have hself : L' (s.nodes id).currentTerm = log := Function.update_self ..
  have hgood : GoodLog (s.nodes id).currentTerm log := by
    simp only [log, e, hok.good.numbered.nextLogIndex_eq]
    exact hok.good.concat hpos command
  have hpre : L (s.nodes id).currentTerm <+: log := hlog ▸ List.prefix_append _ _
  have hgrow : ∀ t, L t <+: L' t := prefix_update hpre
  have hatt : Attested LogEntry.term L' log := (hok.attested.mono hgrow).concat hself
  refine ⟨L', hgrow, h.logs.grow hpre hgood hatt (fun _ hp => hp) ⟨id, hled⟩ h.logs.unique,
    ⟨hok.nodeId, hok.members, hgood, hatt, fun _ => ⟨hself.symm, hled⟩, hok.active, hok.past⟩, ?_⟩
  intro a ha hla
  apply Function.update_of_ne
  intro heq
  have hother := ((h.nodes a).leader hla).2
  rw [heq] at hother
  exact ha (h.logs.unique hother hled)

theorem Certified.clientCommand (h : Certified L s) (id : String) (clock : Clock)
    (command : ClientCommand) :
    ∃ L', Certified L' (s.step (.act id (.clientCommand clock command))) := by
  have hmembers := (h.nodes id).members
  have hstep : s.step (.act id (.clientCommand clock command)) =
      { s with
        nodes := Function.update s.nodes id ((s.nodes id).handleClientCommand clock command).1
        requests := s.requests ++
          envelopes id ((s.nodes id).handleClientCommand clock command).1.log
            ((s.nodes id).handleClientCommand clock command).2.2 } := rfl
  rw [hstep]
  rcases (s.nodes id).handleClientCommand_cases clock command with
    ⟨_, hnode, hout⟩ | ⟨hl, _, hnode, hout⟩ | ⟨hl, hnode, hout⟩
  · have hnew := h.replace (h.nodes id) [] (by simp) [] (by simp)
    rw [hnode, hout]
    exact ⟨L, by simpa [envelopes] using hnew⟩
  · obtain ⟨L', hgrow, hlogs, hok, hsame⟩ := h.lead hl command.command
    have hcommit : NodeOk L' s.leaders id (RaftNode.applyCommittedEntries clock
        { (s.nodes id).appendCommand command.command with
          commitIndex := nextLogIndex (s.nodes id).log }) :=
      hok.of_frame rfl rfl rfl rfl hmembers
    have hnew := h.update hgrow (fun _ hp => hp) hlogs hcommit (fun _ _ _ hp => hp) hsame []
      (by simp) [] (by simp)
    rw [hnode, hout]
    exact ⟨L', by simpa [envelopes] using hnew⟩
  · obtain ⟨L', hgrow, hlogs, hok, hsame⟩ := h.lead hl command.command
    have hreq : ∀ m ∈ envelopes id ((s.nodes id).appendCommand command.command).log
        ((s.nodes id).clusterNodes.flatMap
          ((s.nodes id).appendCommand command.command).replicateLogToFollower),
        Sent L' s.leaders m := by
      intro m hm
      obtain ⟨p, hp, rfl⟩ := List.mem_map.mp hm
      obtain ⟨target, htarget, hp⟩ := List.mem_flatMap.mp hp
      have hne : target ≠ id := by
        rintro rfl
        exact hmembers htarget
      exact sent_replicateLogToFollower hok hne _ (List.mem_map_of_mem hp)
    have hnew := h.update hgrow (fun _ hp => hp) hlogs hok (fun _ _ _ hp => hp) hsame _ hreq []
      (by simp)
    rw [hnode, hout]
    exact ⟨L', by simpa using hnew⟩

/-- A candidate of a term that nobody led opens the log of that term with its own. -/
theorem Certified.elect (h : Certified L s) {id : String}
    (hc : (s.nodes id).state = .candidate)
    (hfree : ∀ a, ((s.nodes id).currentTerm, a) ∉ s.leaders) :
    ∃ L', Certified L' (s.step (.act id .becomeLeader)) := by
  have hok := h.nodes id
  let term := (s.nodes id).currentTerm
  let L' := Function.update L term (s.nodes id).log
  have hnil : L term = [] := by
    by_contra hne
    obtain ⟨a, ha⟩ := h.logs.led hne
    exact hfree a ha
  have hself : L' term = (s.nodes id).log := Function.update_self ..
  have hpre : L term <+: (s.nodes id).log := hnil ▸ List.nil_prefix
  have hgrow : ∀ t, L t <+: L' t := prefix_update hpre
  have hunique : ∀ {t : ℕ} {a b : String}, (t, a) ∈ (term, id) :: s.leaders →
      (t, b) ∈ (term, id) :: s.leaders → a = b := by
    intro t a b ha hb
    rcases List.mem_cons.mp ha with ha | ha <;> rcases List.mem_cons.mp hb with hb | hb
    · rw [(Prod.mk.inj ha).2, (Prod.mk.inj hb).2]
    · rw [(Prod.mk.inj ha).1] at hb
      exact absurd hb (hfree b)
    · rw [(Prod.mk.inj hb).1] at ha
      exact absurd ha (hfree a)
    · exact h.logs.unique ha hb
  have hlogs := h.logs.grow hpre hok.good (hok.attested.mono hgrow)
    (fun _ hp => List.mem_cons_of_mem _ hp) ⟨id, List.mem_cons_self⟩ hunique
  have hn : NodeOk L' ((term, id) :: s.leaders) id (s.nodes id).becomeLeader.1 := by
    simp only [RaftNode.becomeLeader, hc, if_true]
    refine ⟨hok.nodeId, hok.members, hok.good, hok.attested.mono hgrow,
      fun _ => ⟨hself.symm, List.mem_cons_self⟩, fun _ => hok.active (by simp [hc]), ?_⟩
    intro t ht
    rcases List.mem_cons.mp ht with ht | ht
    · exact Or.inr ⟨(Prod.mk.inj ht).1, rfl⟩
    · rcases hok.past ht with hlt | ⟨rfl, _⟩
      · exact Or.inl hlt
      · exact absurd ht (hfree id)
  have hpast : ∀ a, a ≠ id → ∀ t, (t, a) ∈ (term, id) :: s.leaders → (t, a) ∈ s.leaders := by
    intro a ha t ht
    rcases List.mem_cons.mp ht with ht | ht
    · exact absurd (Prod.mk.inj ht).2 ha
    · exact ht
  have hsame : ∀ a, a ≠ id → (s.nodes a).state = .leader →
      L' (s.nodes a).currentTerm = L (s.nodes a).currentTerm := by
    intro a _ hla
    apply Function.update_of_ne
    intro heq
    have hother := ((h.nodes a).leader hla).2
    rw [heq] at hother
    exact hfree a hother
  have hstep := h.update hgrow (fun _ hp => List.mem_cons_of_mem _ hp) hlogs hn hpast hsame
    _ (sent_sendHeartbeats hn) [] (by simp)
  refine ⟨L', ?_⟩
  simpa [step, RaftNode.act, newLeader, hc, RaftNode.becomeLeader] using hstep

theorem Certified.act (h : Certified L s) (id : String) (event : LocalEvent)
    (hok : s.Ok (.act id event)) : ∃ L', Certified L' (s.step (.act id event)) := by
  have hn := h.nodes id
  cases event with
  | setClusterNodes nodes =>
      refine ⟨L, h.acts rfl ?_ (by simp [RaftNode.act, envelopes])⟩
      have hmem : id ∉ nodes.filter (fun x => x != (s.nodes id).nodeId) := by
        simp [hn.nodeId]
      simp only [RaftNode.act, RaftNode.setClusterNodes]
      split_ifs
      · exact hn.of_frame rfl rfl rfl rfl hmem
      · exact hn.of_frame rfl rfl rfl rfl hmem
  | addClusterNode nodeId =>
      refine ⟨L, h.acts rfl ?_ (by simp [RaftNode.act, envelopes])⟩
      simp only [RaftNode.act, RaftNode.addClusterNode]
      split_ifs with hnew
      · have hne : nodeId ≠ id := by
          have hnode := (Bool.and_eq_true_iff.mp hnew).2
          rw [bne_iff_ne, hn.nodeId] at hnode
          exact hnode
        refine hn.of_frame rfl rfl rfl rfl ?_
        simpa [RaftNode.resetReplication, Ne.symm hne] using hn.members
      · exact hn
  | startElection =>
      refine ⟨L, ?_⟩
      by_cases hl : (s.nodes id).state = .leader
      · apply h.acts rfl
        · simpa only [RaftNode.act, RaftNode.startElection, hl, if_true] using hn
        · simp [RaftNode.act, RaftNode.startElection, hl, envelopes]
      · apply h.acts rfl
        · simp only [RaftNode.act, RaftNode.startElection, hl, if_false]
          refine ⟨hn.nodeId, hn.members, hn.good.mono (Nat.le_succ _), hn.attested, by simp,
            by simp, ?_⟩
          intro t ht
          left
          rcases hn.past ht with hlt | ⟨rfl, _⟩
          · exact hlt.trans (Nat.lt_succ_self _)
          · exact Nat.lt_succ_self _
        · intro m hm
          simp only [RaftNode.act, RaftNode.startElection, hl, if_false] at hm
          obtain ⟨p, hp, rfl⟩ := List.mem_map.mp hm
          obtain ⟨target, htarget, rfl⟩ := List.mem_map.mp hp
          have hne : target ≠ id := fun heq => hn.members (heq ▸ htarget)
          exact ⟨hne, by simp⟩
  | becomeLeader =>
      by_cases hc : (s.nodes id).state = .candidate
      · apply h.elect hc
        intro a ha
        have hsame : a = id := by
          refine hok ((s.nodes id).currentTerm, id) ?_ _ ha rfl
          simp [newLeader, hc]
        rw [hsame] at ha
        rcases hn.past ha with hlt | ⟨_, hl⟩
        · exact lt_irrefl _ hlt
        · rw [hc] at hl
          cases hl
      · refine ⟨L, h.acts ?_ ?_ ?_⟩
        · simp [newLeader, hc]
        · simpa only [RaftNode.act, RaftNode.becomeLeader, hc, if_false] using hn
        · simp [RaftNode.act, RaftNode.becomeLeader, hc, envelopes]
  | sendHeartbeats => exact ⟨L, h.acts rfl hn (sent_sendHeartbeats hn)⟩
  | clientCommand clock command => exact h.clientCommand id clock command

theorem certified_step (s : RaftNetwork) (op : NetworkOp) (h : ∃ L, Certified L s)
    (hok : s.Ok op) : ∃ L, Certified L (s.step op) := by
  obtain ⟨L, h⟩ := h
  cases op with
  | act id event => exact h.act id event hok
  | deliver k => exact ⟨L, h.deliver k⟩
  | answer clock k => exact ⟨L, h.answer clock k⟩

theorem certified_run {ops : List NetworkOp} (h : Runs.Admissible step Ok init ops) :
    ∃ L, Certified L (Runs.run step init ops) :=
  Runs.invariant_run certified_step ⟨_, certified_init⟩ h

end Steps

/-- In every reachable state every log has the indices `1, …, n` and non-decreasing terms, and two
logs that hold entries with equal index and term are identical up to that index. -/
theorem log_matching (ops : List NetworkOp) (h : Runs.Admissible step Ok init ops) :
    let s := Runs.run step init ops
    (∀ id, (s.nodes id).log.map LogEntry.index = List.range' 1 (s.nodes id).log.length ∧
      (s.nodes id).log.Pairwise (fun e e' => e.term ≤ e'.term)) ∧
    ∀ (a b : String) (e e' : LogEntry), e ∈ (s.nodes a).log → e' ∈ (s.nodes b).log →
      e.index = e'.index → e.term = e'.term →
      (s.nodes a).log.take e.index = (s.nodes b).log.take e.index := by
  intro s
  obtain ⟨L, hcert⟩ := certified_run h
  refine ⟨?_, ?_⟩
  · intro id
    have hgood := (hcert.nodes id).good
    exact ⟨hgood.numbered.map_index, hgood.sorted⟩
  · intro a b e e' he he' hindex hterm
    have ha := hcert.nodes a
    have hb := hcert.nodes b
    have hpos := ha.good.numbered.index_pos he
    have hget := ha.good.numbered.getElem?_index he
    have hget' := hb.good.numbered.getElem?_index he'
    rw [← hindex] at hget'
    have htake := ha.attested.take_eq hb.attested hget hget' hterm
    rwa [Nat.sub_add_cancel hpos] at htake

/-- A leader replicates its first command to the only follower. -/
def replicationRun : List NetworkOp :=
  [.act "a" (.setClusterNodes ["b"]), .act "a" .startElection, .act "a" .becomeLeader,
    .act "a" (.clientCommand (fun _ => (0, 0)) ⟨"1", .adminCommand (.changeConfig "k" "v")⟩),
    .deliver 2]

theorem replicated_logs_match :
    (((Runs.run step init replicationRun).nodes "b").log.map LogEntry.index = [1]) ∧
    ∀ e ∈ ((Runs.run step init replicationRun).nodes "a").log,
      ∀ e' ∈ ((Runs.run step init replicationRun).nodes "b").log,
        e.index = e'.index → e.term = e'.term →
        ((Runs.run step init replicationRun).nodes "a").log.take e.index =
          ((Runs.run step init replicationRun).nodes "b").log.take e.index :=
  ⟨by decide +kernel, fun e he e' he' hindex hterm =>
    (log_matching replicationRun (by decide +kernel)).2 "a" "b" e e' he he' hindex hterm⟩

end RaftNetwork

end ActixPura
