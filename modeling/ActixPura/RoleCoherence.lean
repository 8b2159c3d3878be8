import ActixPura.RaftNode
import ActixPura.Runs

/-!
# Role and known leader of a node

`state` and `current_leader_id` are written independently by the handlers. A node is coherent when
it leads exactly if it names itself as the leader. Three kinds of calls break the pairing or its
consequences: a vote request of a later term at a leader, which steps down but keeps naming itself;
an `AppendEntries` of the current term at a leader or a candidate, whose role is not reset; and a
client command at a node called "unknown" that knows no leader. In the runs without such calls,
and only in these, every step keeps the node coherent.
-/

namespace ActixPura.RaftNode

def Coherent (n : RaftNode) : Prop :=
  n.state = .leader ↔ n.currentLeaderId = some n.nodeId

instance (n : RaftNode) : Decidable n.Coherent := inferInstanceAs (Decidable (_ ↔ _))

/-- An `AppendEntries` request names a leader other than the node itself. -/
def NamesOther (nodeId : String) : NodeEvent → Prop
  | .appendEntries (.appendEntries _ leaderId _ _ _ _) => leaderId ≠ nodeId
  | _ => True

/-- The call leaves the node coherent, an `AppendEntries` that is not stale leaves no candidate,
and a client is not redirected to the node that it asked. -/
def StepCoherent (n : RaftNode) (event : NodeEvent) : Prop :=
  (n.step event).Coherent ∧
    match event with
    | .appendEntries (.appendEntries term _ _ _ _ _) =>
      n.currentTerm ≤ term → (n.step event).state ≠ .candidate
    | .act (.clientCommand clock command) =>
      n.state ≠ .leader → (n.handleClientCommand clock command).2.1 ≠ .redirect n.nodeId
    | _ => True

/-- No vote request of a later term reaches a leader, no `AppendEntries` of the current term
reaches a node that is not a follower, and no client asks a node named like the placeholder for
a missing leader. -/
def Undisturbed (n : RaftNode) : NodeEvent → Prop
  | .requestVote (.requestVote term _ _ _) => n.state = .leader → term ≤ n.currentTerm
  | .appendEntries (.appendEntries term _ _ _ _ _) => term = n.currentTerm → n.state = .follower
  | .act (.clientCommand _ _) =>
    n.state ≠ .leader → n.currentLeaderId = none → n.nodeId ≠ "unknown"
  | _ => True

variable {n : RaftNode}

theorem coherent_new (nodeId : String) : (new nodeId).Coherent := by
  simp [Coherent, new]

theorem coherent_congr {n' : RaftNode} (hstate : n'.state = n.state)
    (hleader : n'.currentLeaderId = n.currentLeaderId) (hid : n'.nodeId = n.nodeId) :
    n'.Coherent ↔ n.Coherent := by
  unfold Coherent
  rw [hstate, hleader, hid]

theorem coherent_observeTerm (term : ℕ) (h : n.Coherent) :
    (n.observeTerm term).Coherent ↔ (n.state = .leader → term ≤ n.currentTerm) := by
  by_cases hlt : n.currentTerm < term
  · rw [observeTerm_of_lt n hlt]
    unfold Coherent at h ⊢
    simp only [reduceCtorEq, false_iff, ← h]
    exact ⟨fun hl hl' => absurd hl' hl, fun hle hl => absurd (hle hl) (by omega)⟩
  · rw [observeTerm_of_ge n (not_lt.mp hlt)]
    exact ⟨fun _ _ => not_lt.mp hlt, fun _ => h⟩

theorem nodeId_observeTerm (term : ℕ) : (n.observeTerm term).nodeId = n.nodeId := by
  unfold observeTerm
  split_ifs <;> rfl

theorem stepCoherent_requestVote (h : n.Coherent) (message : RaftRequestMessage) :
    n.StepCoherent (.requestVote message) ↔ n.Undisturbed (.requestVote message) := by
  cases message with
  | requestVote term candidateId lastIndex lastTerm =>
      have hcoherent : (n.step (.requestVote
          (.requestVote term candidateId lastIndex lastTerm))).Coherent ↔
            (n.observeTerm term).Coherent := by
        rcases n.handleRequestVote_cases term candidateId lastIndex lastTerm with
          ⟨voteTerm, heq⟩ | ⟨_, _, heq⟩
        · rw [step, heq]
        · rw [step, heq]
          exact coherent_congr rfl rfl rfl
      exact ⟨fun hs => (coherent_observeTerm term h).mp (hcoherent.mp hs.1),
        fun hu => ⟨hcoherent.mpr ((coherent_observeTerm term h).mpr hu), trivial⟩⟩
  | appendEntries term leaderId prev prevTerm entries leaderCommit => exact ⟨fun _ => trivial,
      fun _ => ⟨h, trivial⟩⟩
  | installSnapshot term leaderId lastIndex lastTerm data => exact ⟨fun _ => trivial,
      fun _ => ⟨h, trivial⟩⟩

/-- A request that is not stale leaves the role that `observeTerm` gives and a new leader. -/
theorem appendEntries_role {term : ℕ} (hterm : n.currentTerm ≤ term) (leaderId : String)
    (prev prevTerm : ℕ) (entries : List LogEntry) (leaderCommit : ℕ) :
    let n' := (n.appendEntries
      (.appendEntries term leaderId prev prevTerm entries leaderCommit)).1
    n'.state = (n.observeTerm term).state ∧ n'.currentLeaderId = some leaderId ∧
      n'.nodeId = n.nodeId := by
  by_cases hgood : logConsistent n.log prev prevTerm = true
  · simp [appendEntries, not_lt.mpr hterm, hgood, nodeId_observeTerm]
  · simp [appendEntries, not_lt.mpr hterm, hgood, nodeId_observeTerm]

theorem stepCoherent_appendEntries (h : n.Coherent) {message : RaftRequestMessage}
    (hother : NamesOther n.nodeId (.appendEntries message)) :
    n.StepCoherent (.appendEntries message) ↔ n.Undisturbed (.appendEntries message) := by
  cases message with
  | requestVote term candidateId lastIndex lastTerm => exact ⟨fun _ => trivial,
      fun _ => ⟨h, trivial⟩⟩
  | installSnapshot term leaderId lastIndex lastTerm data => exact ⟨fun _ => trivial,
      fun _ => ⟨h, trivial⟩⟩
  | appendEntries term leaderId prev prevTerm entries leaderCommit =>
      by_cases hstale : term < n.currentTerm
      · have hsame : n.step (.appendEntries
            (.appendEntries term leaderId prev prevTerm entries leaderCommit)) = n := by
          simp [step, appendEntries, hstale]
        refine ⟨fun _ heq => absurd heq (by omega), fun _ => ⟨?_, ?_⟩⟩
        · rw [hsame]
          exact h
        · intro hle
          omega
      · have hterm := not_lt.mp hstale
        obtain ⟨hstate, hleader, hid⟩ :=
          n.appendEntries_role hterm leaderId prev prevTerm entries leaderCommit
        have hne : some leaderId ≠ some n.nodeId := by simpa [NamesOther] using hother
        have hcoherent : n.StepCoherent (.appendEntries
            (.appendEntries term leaderId prev prevTerm entries leaderCommit)) ↔
              (n.observeTerm term).state ≠ .leader ∧ (n.observeTerm term).state ≠ .candidate := by
          simp only [StepCoherent, Coherent, step, hstate, hleader, hid, hne, iff_false, hterm,
            forall_const]
        rw [hcoherent]
        by_cases hlt : n.currentTerm < term
        · rw [observeTerm_of_lt n hlt]
          exact ⟨fun _ heq => absurd heq (by omega), fun _ => ⟨by simp, by simp⟩⟩
        · rw [observeTerm_of_ge n (not_lt.mp hlt)]
          have heq : term = n.currentTerm := by omega
          simp only [Undisturbed, heq, forall_const]
          cases n.state <;> decide

theorem coherent_response (h : n.Coherent) (clock : Clock) (followerId : String)
    (message : RaftResponseMessage) :
    (n.handleAppendEntriesResponse clock followerId message).1.Coherent := by
  rcases n.handleAppendEntriesResponse_cases clock followerId message with
    heq | ⟨term, hlt, heq⟩ | ⟨_, _, _, _, _, _, _, heq, _⟩ | ⟨_, heq⟩
  · rw [heq]
    exact h
  · rw [heq, observeTerm_of_lt n hlt]
    simp [Coherent]
  · rw [heq]
    exact h
  · rw [heq]
    exact h

theorem coherent_act (h : n.Coherent) (event : LocalEvent) : (n.act event).1.Coherent := by
  cases event with
  | setClusterNodes nodes =>
      simp only [act, setClusterNodes]
      split_ifs
      · exact h
      · exact h
  | addClusterNode nodeId =>
      simp only [act, addClusterNode]
      split_ifs
      · exact h
      · exact h
  | startElection =>
      simp only [act, startElection]
      split_ifs with hl
      · exact h
      · have hnot : n.currentLeaderId ≠ some n.nodeId := fun heq => hl (h.mpr heq)
        simp [Coherent, hnot]
  | becomeLeader =>
      simp only [act, becomeLeader]
      split_ifs
      · simp [Coherent, resetReplication]
      · exact h
  | sendHeartbeats => exact h
  | clientCommand clock command =>
      simp only [act]
      rcases n.handleClientCommand_cases clock command with
        ⟨_, hnode, _⟩ | ⟨_, _, hnode, _⟩ | ⟨_, hnode, _⟩
      · rw [hnode]
        exact h
      · rw [hnode]
        exact h
      · rw [hnode]
        exact h

/-- A node that does not lead names somebody else, so only the placeholder can be its own name. -/
theorem redirect_ne_iff (h : n.Coherent) (hl : n.state ≠ .leader) (clock : Clock)
    (command : ClientCommand) :
    (n.handleClientCommand clock command).2.1 ≠ .redirect n.nodeId ↔
      (n.currentLeaderId = none → n.nodeId ≠ "unknown") := by
  have hother : n.currentLeaderId ≠ some n.nodeId := fun heq => hl (h.mpr heq)
  simp only [handleClientCommand, if_neg hl]
  cases hleader : n.currentLeaderId with
  | none => simp [eq_comm]
  | some leader =>
      rw [hleader] at hother
      simpa using hother

theorem stepCoherent_act (h : n.Coherent) (event : LocalEvent) :
    n.StepCoherent (.act event) ↔ n.Undisturbed (.act event) := by
  have hcoherent := coherent_act h event
  cases event with
  | clientCommand clock command =>
      have hredirect := fun hl => redirect_ne_iff h hl clock command
      exact ⟨fun hs hl => (hredirect hl).mp (hs.2 hl),
        fun hu => ⟨hcoherent, fun hl => (hredirect hl).mpr (hu hl)⟩⟩
  | setClusterNodes nodes => exact ⟨fun _ => trivial, fun _ => ⟨hcoherent, trivial⟩⟩
  | addClusterNode nodeId => exact ⟨fun _ => trivial, fun _ => ⟨hcoherent, trivial⟩⟩
  | startElection => exact ⟨fun _ => trivial, fun _ => ⟨hcoherent, trivial⟩⟩
  | becomeLeader => exact ⟨fun _ => trivial, fun _ => ⟨hcoherent, trivial⟩⟩
  | sendHeartbeats => exact ⟨fun _ => trivial, fun _ => ⟨hcoherent, trivial⟩⟩

theorem stepCoherent_iff (h : n.Coherent) {event : NodeEvent} (hother : NamesOther n.nodeId event) :
    n.StepCoherent event ↔ n.Undisturbed event := by
  cases event with
  | act event => exact stepCoherent_act h event
  | requestVote message => exact stepCoherent_requestVote h message
  | appendEntries message => exact stepCoherent_appendEntries h hother
  | response clock followerId message =>
      exact ⟨fun _ => trivial, fun _ => ⟨coherent_response h clock followerId message, trivial⟩⟩

theorem nodeId_act (event : LocalEvent) : (n.act event).1.nodeId = n.nodeId := by
  cases event with
  | setClusterNodes nodes => simp only [act, setClusterNodes]; split_ifs <;> rfl
  | addClusterNode nodeId => simp only [act, addClusterNode]; split_ifs <;> rfl
  | startElection => simp only [act, startElection]; split_ifs <;> rfl
  | becomeLeader => simp only [act, becomeLeader]; split_ifs <;> rfl
  | sendHeartbeats => rfl
  | clientCommand clock command =>
      simp only [act]
      rcases n.handleClientCommand_cases clock command with
        ⟨_, hnode, _⟩ | ⟨_, _, hnode, _⟩ | ⟨_, hnode, _⟩
      · rw [hnode]
      · rw [hnode]
        rfl
      · rw [hnode]
        rfl

theorem nodeId_step (event : NodeEvent) : (n.step event).nodeId = n.nodeId := by
  cases event with
  | act event => exact nodeId_act event
  | requestVote message =>
      cases message with
      | appendEntries term leaderId prev prevTerm entries leaderCommit => rfl
      | installSnapshot term leaderId lastIndex lastTerm data => rfl
      | requestVote term candidateId lastIndex lastTerm =>
          rcases n.handleRequestVote_cases term candidateId lastIndex lastTerm with
            ⟨voteTerm, heq⟩ | ⟨_, _, heq⟩
          · rw [step, heq, nodeId_observeTerm]
          · rw [step, heq]
            exact nodeId_observeTerm term
  | appendEntries message =>
      cases message with
      | requestVote term candidateId lastIndex lastTerm => rfl
      | installSnapshot term leaderId lastIndex lastTerm data => rfl
      | appendEntries term leaderId prev prevTerm entries leaderCommit =>
          by_cases hstale : term < n.currentTerm
          · simp [step, appendEntries, hstale]
          · exact (n.appendEntries_role (not_lt.mp hstale) leaderId prev prevTerm entries
              leaderCommit).2.2
  | response clock followerId message =>
      rcases n.handleAppendEntriesResponse_cases clock followerId message with
        heq | ⟨term, _, heq⟩ | ⟨_, _, _, _, _, _, _, heq, _⟩ | ⟨_, heq⟩
      · rw [step, heq]
      · rw [step, heq]
        exact nodeId_observeTerm term
      · rw [step, heq]
        rfl
      · rw [step, heq]

/-- In a run whose `AppendEntries` name other leaders, the node starts coherent and every call keeps
it so, exactly when the run is undisturbed. -/
theorem roles_coherent_iff (nodeId : String) (events : List NodeEvent)
    (hother : ∀ event ∈ events, NamesOther nodeId event) :
    ((new nodeId).Coherent ∧ ∀ before event after, events = before ++ event :: after →
        StepCoherent (Runs.run step (new nodeId) before) event) ↔
      Runs.Admissible step Undisturbed (new nodeId) events := by
  rw [← Runs.admissible_iff_forall, and_iff_right (coherent_new nodeId)]
  refine Runs.admissible_congr (I := fun n => n.nodeId = nodeId ∧ n.Coherent)
    (P := NamesOther nodeId) ?_ ?_ ⟨rfl, coherent_new nodeId⟩ hother
  · rintro n event ⟨rfl, _⟩ _ hstep
    exact ⟨nodeId_step event, hstep.1⟩
  · rintro n event ⟨rfl, hn⟩ hevent
    exact stepCoherent_iff hn hevent

/-- An election that is won and then lost to a leader of a later term. -/
theorem roles_coherent_election :
    let events : List NodeEvent := [.act .startElection, .act .becomeLeader,
      .appendEntries (.appendEntries 2 "b" 0 0 [] 0)]
    (∀ event ∈ events, NamesOther "a" event) ∧
      ∀ before event after, events = before ++ event :: after →
        StepCoherent (Runs.run step (new "a") before) event := by
  intro events
  have hother : ∀ event ∈ events, NamesOther "a" event := by
    simp [events, NamesOther]
  refine ⟨hother, ((roles_coherent_iff "a" events hother).mpr ?_).2⟩
  refine ⟨trivial, trivial, ?_, trivial⟩
  exact fun hterm => absurd hterm (by decide)

/-- A leader that receives a vote request of a later term keeps naming itself. -/
theorem not_roles_coherent : ¬ ∀ (nodeId : String) (events : List NodeEvent),
    (∀ event ∈ events, NamesOther nodeId event) →
      (new nodeId).Coherent ∧ ∀ before event after, events = before ++ event :: after →
        StepCoherent (Runs.run step (new nodeId) before) event := by
  intro h
  have hstep := (h "a" [.act .startElection, .act .becomeLeader,
    .requestVote (.requestVote 2 "b" 0 0)] (by simp [NamesOther])).2
      [.act .startElection, .act .becomeLeader] _ [] rfl
  exact absurd hstep.1 (by decide +kernel)

end ActixPura.RaftNode
