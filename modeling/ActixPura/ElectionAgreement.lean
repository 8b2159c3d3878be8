import ActixPura.MasterElection

/-!
# When an election reaches agreement

An election that was started by health checks ends when nothing is in flight. It should then have
made the participant of least rank the master of every participant. Three things stand in the way.
The winner takes its own message for one of equal rank and never names itself. A node that ties
with the winner in priority is silent as well. A node that has accepted the winner accepts a worse
candidate afterwards, when that message or the update it caused is delivered later.

`MayStand` describes which nodes can become candidates of a round. From it follows which updates can
be sent at all, and a condition on the start of the election under which every order of the
deliveries ends in agreement. Where every node knows every other one the condition is necessary.
-/

namespace ActixPura

open Runs

/-- The nodes to which an actor sends its candidature. -/
def MasterActor.Addresses (a : MasterActor) (n : NodeId) : Prop :=
  n ∈ a.nodes.keys ∨ n = a.localNodeId

theorem MasterActor.mem_electionPackets {a : MasterActor} {round : UInt64} {q : MasterPacket} :
    q ∈ a.electionPackets round ↔
      ∃ n, a.Addresses n ∧ q = ⟨n, .election (a.candidature round)⟩ := by
  simp only [electionPackets, List.mem_map, List.mem_append, List.mem_filter, List.mem_singleton,
    decide_eq_true_eq, Addresses]
  constructor
  · rintro ⟨n, hn, rfl⟩
    exact ⟨n, hn.imp (fun h => h.1) id, rfl⟩
  · rintro ⟨n, hn, rfl⟩
    by_cases hself : n = a.localNodeId
    · exact ⟨n, Or.inr hself, rfl⟩
    · exact ⟨n, Or.inl ⟨hn.resolve_right hself, hself⟩, rfl⟩

theorem MasterActor.priority_congr {a b : MasterActor} (hid : b.localNodeId = a.localNodeId)
    (hnodes : b.nodes = a.nodes) : b.priority = a.priority := by
  rw [priority, hid, hnodes, priority]

theorem MasterActor.rank_congr {a b : MasterActor} (hid : b.localNodeId = a.localNodeId)
    (hnodes : b.nodes = a.nodes) : b.rank = a.rank := by
  rw [rank, priority_congr hid hnodes, hid, rank]

theorem MasterActor.rank_lt_of_priority_lt {a b : MasterActor} (h : a.priority < b.priority) :
    a.rank < b.rank :=
  Prod.Lex.toLex_lt_toLex.mpr (Or.inl (UInt32.lt_iff_toNat_lt.mp h))

theorem MasterActor.electionPackets_congr {a b : MasterActor}
    (hid : b.localNodeId = a.localNodeId) (hnodes : b.nodes = a.nodes) (round : UInt64) :
    b.electionPackets round = a.electionPackets round := by
  simp only [electionPackets, candidature, priority_congr hid hnodes, hid, hnodes]

namespace MasterCluster

def masterId (s : MasterCluster) (n : NodeId) : Option NodeId :=
  (s.actors n).map fun a => a.state.masterId

/-- A node can become a candidate of a round by starting it, or by hearing of a candidate that
ranks behind it. -/
inductive MayStand (s : MasterCluster) (round : UInt64) : MasterActor → Prop
  | starts {a : MasterActor} {target : NodeId} (present : s.actors a.localNodeId = some a)
      (sent : ⟨target, .election (a.candidature round)⟩ ∈ s.inFlight) :
      MayStand s round a
  | joins {a d : MasterActor} (before : MayStand s round d)
      (present : s.actors a.localNodeId = some a) (known : a.localNodeId ∈ d.nodes.keys)
      (ahead : a.rank < d.rank) (fresh : a.currentRound ≤ round) : MayStand s round a

/-- What is in flight when an election starts: whole broadcasts of nodes with another master. -/
def Opening (s : MasterCluster) : Prop :=
  ∀ p ∈ s.inFlight, ∃ a round, s.actors a.localNodeId = some a ∧
    a.state.masterId ≠ a.localNodeId ∧ p ∈ a.electionPackets round ∧
    ∀ q ∈ a.electionPackets round, q ∈ s.inFlight

/-- A node accepts a candidate that may stand when it has the worse priority and no later round. -/
structure MayAccept (s : MasterCluster) (round : UInt64) (c n : MasterActor) : Prop where
  stands : s.MayStand round c
  present : s.actors n.localNodeId = some n
  known : n.localNodeId ∈ c.nodes.keys
  fresh : n.currentRound ≤ round
  worse : c.priority < n.priority

variable {s t : MasterCluster}

theorem MayStand.present {round : UInt64} {a : MasterActor} (h : s.MayStand round a) :
    s.actors a.localNodeId = some a := by
  cases h with
  | starts present _ => exact present
  | joins _ present _ _ _ => exact present

theorem eq_of_localNodeId {a b : MasterActor} (ha : s.actors a.localNodeId = some a)
    (hb : s.actors b.localNodeId = some b) (h : a.localNodeId = b.localNodeId) : a = b := by
  rw [h, hb] at ha
  exact (Option.some.inj ha).symm

theorem Opening.broadcast (h : s.Opening) {a : MasterActor} {round : UInt64} {target : NodeId}
    (present : s.actors a.localNodeId = some a)
    (sent : ⟨target, .election (a.candidature round)⟩ ∈ s.inFlight) :
    a.state.masterId ≠ a.localNodeId ∧ ∀ q ∈ a.electionPackets round, q ∈ s.inFlight := by
  obtain ⟨a', round', present', hother, hp, hall⟩ := h _ sent
  obtain ⟨m, -, heq⟩ := MasterActor.mem_electionPackets.mp hp
  simp only [MasterPacket.mk.injEq, MasterMessage.election.injEq, MasterActor.candidature,
    ElectionMessage.mk.injEq] at heq
  obtain ⟨-, hid, -, rfl⟩ := heq
  obtain rfl := eq_of_localNodeId present present' hid
  exact ⟨hother, hall⟩

/-- A round in which a node may stand was started. -/
theorem MayStand.started {round : UInt64} {a : MasterActor} (h : s.MayStand round a) :
    ∃ target d, ⟨target, .election (MasterActor.candidature d round)⟩ ∈ s.inFlight := by
  induction h with
  | starts _ sent => exact ⟨_, _, sent⟩
  | joins _ _ _ _ _ ih => exact ih

/-- What the start of an election fixes for every later state. -/
structure Follows (s t : MasterCluster) : Prop where
  actor : ∀ n b, t.actors n = some b → ∃ a, s.actors n = some a ∧
    b.localNodeId = a.localNodeId ∧ b.nodes = a.nodes ∧ a.currentRound ≤ b.currentRound ∧
    (b.currentRound = a.currentRound ∨ ∃ d, s.MayStand b.currentRound d)
  kept : ∀ n a, s.actors n = some a → ∃ b, t.actors n = some b
  election : ∀ n msg, ⟨n, .election msg⟩ ∈ t.inFlight → ∃ d, s.MayStand msg.round d ∧
    d.Addresses n ∧ msg = d.candidature msg.round
  update : ∀ n id, ⟨n, .updateMaster id⟩ ∈ t.inFlight → ∃ round d a, s.MayAccept round d a ∧
    d.localNodeId = id ∧ a.localNodeId = n

theorem Opening.follows (h : s.Opening) : s.Follows s where
  actor n b hb := ⟨b, hb, rfl, rfl, UInt64.le_refl _, Or.inl rfl⟩
  kept n a ha := ⟨a, ha⟩
  election n msg hmsg := by
    obtain ⟨a, round, present, -, hp, -⟩ := h _ hmsg
    obtain ⟨m, haddress, heq⟩ := MasterActor.mem_electionPackets.mp hp
    simp only [MasterPacket.mk.injEq, MasterMessage.election.injEq] at heq
    obtain ⟨rfl, rfl⟩ := heq
    exact ⟨a, .starts present hmsg, haddress, rfl⟩
  update n id hmsg := by
    obtain ⟨a, round, -, -, hp, -⟩ := h _ hmsg
    obtain ⟨m, -, heq⟩ := MasterActor.mem_electionPackets.mp hp
    simp at heq

theorem deliver_actors_of_ne {p : MasterPacket} {n : NodeId} (h : n ≠ p.target) :
    (t.deliver p).actors n = t.actors n := Function.update_of_ne h _ _

theorem deliver_actors_target (p : MasterPacket) : (t.deliver p).actors p.target =
    (t.actors p.target).map fun a => (a.handle p.message).1 := Function.update_self _ _ _

theorem mem_deliver {p q : MasterPacket} : q ∈ (t.deliver p).inFlight ↔
    q ∈ t.inFlight.erase p ∨ ∃ a, t.actors p.target = some a ∧ q ∈ (a.handle p.message).2 := by
  change q ∈ t.inFlight.erase p + _ ↔ _
  rw [Multiset.mem_add]
  cases t.actors p.target with
  | none => simp
  | some a => simp

end MasterCluster

theorem MasterActor.handle_currentRound (a : MasterActor) (message : MasterMessage) :
    (a.handle message).1.currentRound = a.currentRound ∨ ∃ msg, message = .election msg ∧
      a.currentRound ≤ msg.round ∧ (a.handle message).1.currentRound = msg.round := by
  cases message with
  | election msg =>
      by_cases h : a.currentRound ≤ msg.round
      · refine Or.inr ⟨msg, rfl, h, ?_⟩
        simp only [handle, handleElection_eq h, joinRound_currentRound h]
      · exact Or.inl (by simp only [handle, handleElection_of_old h])
  | updateMaster masterId => exact Or.inl rfl
  | updateBackupMasters backupMasters => exact Or.inl rfl

namespace MasterCluster

variable {s t : MasterCluster}

theorem Follows.actor_deliver (h : s.Follows t) {p : MasterPacket} (hp : p ∈ t.inFlight)
    (n : NodeId) (b : MasterActor) (hb : (t.deliver p).actors n = some b) :
    ∃ a, s.actors n = some a ∧ b.localNodeId = a.localNodeId ∧ b.nodes = a.nodes ∧
      a.currentRound ≤ b.currentRound ∧
      (b.currentRound = a.currentRound ∨ ∃ d, s.MayStand b.currentRound d) := by
  by_cases hn : n = p.target
  · subst hn
    rw [deliver_actors_target] at hb
    obtain ⟨b, hb', rfl⟩ := Option.map_eq_some_iff.mp hb
    obtain ⟨a, ha, hid, hnodes, hle, hround⟩ := h.actor _ b hb'
    obtain ⟨hid', hnodes'⟩ := b.handle_node p.message
    refine ⟨a, ha, hid'.trans hid, hnodes'.trans hnodes, ?_⟩
    rcases b.handle_currentRound p.message with hsame | ⟨msg, hmsg, hfresh, hjoined⟩
    · rw [hsame]
      exact ⟨hle, hround⟩
    · rw [hjoined]
      obtain ⟨d, hstand, -⟩ := h.election p.target msg (by rw [← hmsg]; exact hp)
      exact ⟨UInt64.le_trans hle hfresh, Or.inr ⟨d, hstand⟩⟩
  · rw [deliver_actors_of_ne hn] at hb
    exact h.actor n b hb

/-- The candidates and the updates that a delivery can add. -/
theorem Follows.sent (h : s.Follows t) {p q : MasterPacket} (hp : p ∈ t.inFlight)
    {b : MasterActor} (hb : t.actors p.target = some b) (hq : q ∈ (b.handle p.message).2) :
    (∃ a round n, s.MayStand round a ∧ a.Addresses n ∧
      q = ⟨n, .election (a.candidature round)⟩) ∨
    (∃ round d a, s.MayAccept round d a ∧ q = ⟨a.localNodeId, .updateMaster d.localNodeId⟩) ∨
    ∃ n ids, q = ⟨n, .updateBackupMasters ids⟩ := by
  obtain ⟨target, message⟩ := p
  obtain ⟨a, ha, hid, hnodes, hle, -⟩ := h.actor _ b hb
  have hname : a.localNodeId = target := s.named _ a ha
  have present : s.actors a.localNodeId = some a := by rw [hname]; exact ha
  rcases MasterActor.mem_handle_cases hq with ⟨msg, rfl, hfresh, hrank, hq⟩ |
    ⟨msg, rfl, hfresh, hpriority, rfl⟩ | ⟨id, rfl, rfl⟩
  · obtain ⟨d, hstand, haddress, hmsg⟩ := h.election _ _ hp
    rw [MasterActor.rank_congr hid hnodes, hmsg] at hrank
    have hahead : a.rank < d.rank := hrank
    have hknown : a.localNodeId ∈ d.nodes.keys := by
      rcases haddress with hmem | hself
      · rw [hname]
        exact hmem
      · rw [eq_of_localNodeId present hstand.present (hname.trans hself)] at hahead
        exact absurd hahead (lt_irrefl _)
    obtain ⟨n, hn, rfl⟩ := MasterActor.mem_electionPackets.mp hq
    refine Or.inl ⟨a, msg.round, n, .joins hstand present hknown hahead
      (UInt64.le_trans hle hfresh), ?_, ?_⟩
    · simpa only [MasterActor.Addresses, hid, hnodes] using hn
    · simp only [MasterActor.candidature, hid, MasterActor.priority_congr hid hnodes]
  · obtain ⟨d, hstand, haddress, hmsg⟩ := h.election _ _ hp
    rw [MasterActor.priority_congr hid hnodes, hmsg] at hpriority
    have hworse : d.priority < a.priority := hpriority
    have hknown : a.localNodeId ∈ d.nodes.keys := by
      rcases haddress with hmem | hself
      · rw [hname]
        exact hmem
      · rw [eq_of_localNodeId present hstand.present (hname.trans hself)] at hworse
        exact absurd hworse (UInt32.lt_irrefl _)
    refine Or.inr (Or.inl ⟨msg.round, d, a, ⟨hstand, present, hknown,
      UInt64.le_trans hle hfresh, hworse⟩, ?_⟩)
    rw [hid, hmsg]
    rfl
  · exact Or.inr (Or.inr ⟨_, _, rfl⟩)

theorem Follows.step (h : s.Follows t) {p : MasterPacket} (hp : p ∈ t.inFlight) :
    s.Follows (t.deliver p) where
  actor := h.actor_deliver hp
  kept n a ha := by
    obtain ⟨b, hb⟩ := h.kept n a ha
    by_cases hn : n = p.target
    · subst hn
      exact ⟨_, by rw [deliver_actors_target, hb, Option.map_some]⟩
    · exact ⟨b, by rw [deliver_actors_of_ne hn, hb]⟩
  election n msg hmsg := by
    rcases mem_deliver.mp hmsg with hold | ⟨b, hb, hq⟩
    · exact h.election n msg (Multiset.mem_of_mem_erase hold)
    · rcases h.sent hp hb hq with ⟨a, round, m, hstand, haddress, heq⟩ | ⟨_, _, _, _, heq⟩ |
        ⟨_, _, heq⟩
      · simp only [MasterPacket.mk.injEq, MasterMessage.election.injEq] at heq
        obtain ⟨rfl, rfl⟩ := heq
        exact ⟨a, hstand, haddress, rfl⟩
      · simp at heq
      · simp at heq
  update n id hmsg := by
    rcases mem_deliver.mp hmsg with hold | ⟨b, hb, hq⟩
    · exact h.update n id (Multiset.mem_of_mem_erase hold)
    · rcases h.sent hp hb hq with ⟨_, _, _, _, _, heq⟩ | ⟨round, d, a, haccept, heq⟩ | ⟨_, _, heq⟩
      · simp at heq
      · simp only [MasterPacket.mk.injEq, MasterMessage.updateMaster.injEq] at heq
        obtain ⟨rfl, rfl⟩ := heq
        exact ⟨round, d, a, haccept, rfl, rfl⟩
      · simp at heq

/-- The packets are delivered in the order of the list. -/
def Deliverable (s : MasterCluster) (ds : List MasterPacket) : Prop :=
  Admissible deliver (fun s p => p ∈ s.inFlight) s ds

theorem Follows.run_step (h : s.Follows t) {ds : List MasterPacket} (hds : t.Deliverable ds) :
    s.Follows (run deliver t ds) :=
  invariant_run (fun _ _ hf hp => hf.step hp) h hds

theorem Opening.follows_run (h : s.Opening) {ds : List MasterPacket} (hds : s.Deliverable ds) :
    s.Follows (run deliver s ds) :=
  h.follows.run_step hds

/-- Only an `UpdateMaster` for the node changes its master. -/
theorem masterId_deliver (t : MasterCluster) (p : MasterPacket) (n : NodeId) :
    (t.deliver p).masterId n = t.masterId n ∨ ∃ id, p = ⟨n, .updateMaster id⟩ ∧
      (t.deliver p).masterId n = (t.masterId n).map fun _ => id := by
  obtain ⟨target, message⟩ := p
  by_cases hn : n = target
  · subst hn
    have hactors := deliver_actors_target (t := t) ⟨n, message⟩
    simp only [masterId, hactors, Option.map_map]
    cases message with
    | election msg =>
        refine Or.inl (congrArg (fun f => Option.map f (t.actors n)) (funext fun a => ?_))
        by_cases h : a.currentRound ≤ msg.round
        · simp [MasterActor.handle, MasterActor.handleElection_eq h]
        · simp [MasterActor.handle, MasterActor.handleElection_of_old h]
    | updateMaster id => exact Or.inr ⟨id, rfl, rfl⟩
    | updateBackupMasters ids => exact Or.inl rfl
  · have hactors := deliver_actors_of_ne (t := t) (p := ⟨target, message⟩) hn
    exact Or.inl (by simp only [masterId, hactors])

theorem masterId_deliver_updateMaster {n : NodeId} {b : MasterActor} (hb : t.actors n = some b)
    (id : NodeId) : (t.deliver ⟨n, .updateMaster id⟩).masterId n = some id := by
  have hactors := deliver_actors_target (t := t) ⟨n, .updateMaster id⟩
  simp only [masterId, hactors, hb, Option.map_some]
  rfl

/-! ## Nobody is left out of the latest round -/

/-- What is sent when a candidature reaches a node that can still join its round. -/
theorem Follows.mem_deliver_election (h : s.Follows t) {round : UInt64} {a b : MasterActor}
    (ha : s.actors a.localNodeId = some a) (hb : t.actors a.localNodeId = some b)
    (hround : b.currentRound ≤ round) (d : MasterActor) {q : MasterPacket}
    (hq : q ∈ if a.rank < d.rank then a.electionPackets round
      else if d.priority < a.priority then [⟨a.localNodeId, .updateMaster d.localNodeId⟩]
      else []) :
    q ∈ (t.deliver ⟨a.localNodeId, .election (d.candidature round)⟩).inFlight := by
  obtain ⟨a', ha', hid, hnodes, -, -⟩ := h.actor _ b hb
  obtain rfl : a = a' := Option.some.inj (ha.symm.trans ha')
  refine mem_deliver.mpr (Or.inr ⟨b, hb, ?_⟩)
  have hjoin : b.currentRound ≤ (d.candidature round).round := hround
  simp only [MasterActor.handle, MasterActor.handleElection_eq hjoin,
    MasterActor.rank_candidature, MasterActor.rank_congr hid hnodes,
    MasterActor.priority_congr hid hnodes, MasterActor.electionPackets_congr hid hnodes, hid]
  exact hq

theorem Follows.mem_deliver_standing (h : s.Follows t) {round : UInt64} {a b d : MasterActor}
    (ha : s.actors a.localNodeId = some a) (hb : t.actors a.localNodeId = some b)
    (hround : b.currentRound ≤ round) (hrank : a.rank < d.rank) {q : MasterPacket}
    (hq : q ∈ a.electionPackets round) :
    q ∈ (t.deliver ⟨a.localNodeId, .election (d.candidature round)⟩).inFlight :=
  h.mem_deliver_election ha hb hround d (by rw [if_pos hrank]; exact hq)

theorem Follows.mem_deliver_accepting (h : s.Follows t) {round : UInt64} {a b d : MasterActor}
    (ha : s.actors a.localNodeId = some a) (hb : t.actors a.localNodeId = some b)
    (hround : b.currentRound ≤ round) (hworse : d.priority < a.priority) :
    ⟨a.localNodeId, .updateMaster d.localNodeId⟩ ∈
      (t.deliver ⟨a.localNodeId, .election (d.candidature round)⟩).inFlight := by
  have hbehind : ¬ a.rank < d.rank := not_lt.mpr (MasterActor.rank_lt_of_priority_lt hworse).le
  refine h.mem_deliver_election ha hb hround d ?_
  rw [if_neg hbehind, if_pos hworse]
  exact List.mem_singleton_self _

theorem Follows.exists_joinable (h : s.Follows t) {latest : UInt64}
    (hlatest : ∀ n msg, ⟨n, .election msg⟩ ∈ s.inFlight → msg.round ≤ latest)
    {a : MasterActor} (ha : s.actors a.localNodeId = some a) (hround : a.currentRound ≤ latest) :
    ∃ b, t.actors a.localNodeId = some b ∧ b.currentRound ≤ latest := by
  obtain ⟨b, hb⟩ := h.kept _ a ha
  refine ⟨b, hb, ?_⟩
  obtain ⟨a', ha', -, -, -, heq | ⟨d, hstand⟩⟩ := h.actor _ b hb
  · rw [ha, Option.some.injEq] at ha'
    rw [heq, ← ha']
    exact hround
  · obtain ⟨n, c, hstart⟩ := hstand.started
    exact hlatest _ _ hstart

/-- In the latest round every node that may stand does, and all that it addresses hear of it. -/
theorem Opening.candidature_delivered (hopen : s.Opening) {ds : List MasterPacket}
    (hds : s.Deliverable ds) (hend : (run deliver s ds).inFlight = 0) {latest : UInt64}
    (hlatest : ∀ n msg, ⟨n, .election msg⟩ ∈ s.inFlight → msg.round ≤ latest)
    {a : MasterActor} (hstand : s.MayStand latest a) {n : NodeId} (hn : a.Addresses n) :
    ∃ before after,
      ds = before ++ ⟨n, .election (a.candidature latest)⟩ :: after := by
  induction hstand generalizing n with
  | @starts a target present sent =>
      exact descends_deliver.delivered hds hend ((hopen.broadcast present sent).2 _
        (MasterActor.mem_electionPackets.mpr ⟨n, hn, rfl⟩))
  | @joins a d before present known ahead fresh ih =>
      obtain ⟨early, late, rfl⟩ := ih (Or.inl known)
      obtain ⟨hearly, hlate⟩ := admissible_append.mp hds
      rw [run_append, run_cons] at hend
      have hfollows := hopen.follows_run hearly
      obtain ⟨b, hb, hround⟩ := hfollows.exists_joinable hlatest present fresh
      have hsent := hfollows.mem_deliver_standing present hb hround ahead
        (MasterActor.mem_electionPackets.mpr ⟨n, hn, rfl⟩)
      obtain ⟨mid, last, rfl⟩ := descends_deliver.delivered hlate.2 hend hsent
      exact ⟨early ++ ⟨a.localNodeId, .election (d.candidature latest)⟩ :: mid, last, by simp⟩

/-! ## Agreement -/

def TookPart (s : MasterCluster) (ds : List MasterPacket) (a : MasterActor) : Prop :=
  s.actors a.localNodeId = some a ∧ ∃ msg, ⟨a.localNodeId, .election msg⟩ ∈ ds

/-- After the deliveries the participant of least rank is the master of all participants. -/
def Agrees (s : MasterCluster) (ds : List MasterPacket) : Prop :=
  ∀ w, s.TookPart ds w → (∀ n, s.TookPart ds n → w.rank ≤ n.rank) →
    ∀ n, s.TookPart ds n → (run deliver s ds).masterId n.localNodeId = some w.localNodeId

def MayHear (s : MasterCluster) (a : MasterActor) : Prop :=
  s.actors a.localNodeId = some a ∧ ∃ round d, s.MayStand round d ∧ d.Addresses a.localNodeId

/-- The start of an election that `w` wins in every order of the deliveries. -/
structure Settled (s : MasterCluster) (w : MasterActor) (latest : UInt64) : Prop where
  present : s.actors w.localNodeId = some w
  own : w.state.masterId = w.localNodeId
  latest_le : ∀ n msg, ⟨n, .election msg⟩ ∈ s.inFlight → msg.round ≤ latest
  called : ∃ d, s.MayStand latest d ∧ d.Addresses w.localNodeId
  alone : ∀ round c n, s.MayAccept round c n → c = w
  ahead : ∀ n, s.MayHear n → n ≠ w → w.rank < n.rank
  told : ∀ n, s.MayHear n → n ≠ w →
    n.state.masterId = w.localNodeId ∨ s.MayAccept latest w n

theorem Opening.mayHear_of_tookPart (hopen : s.Opening) {ds : List MasterPacket}
    (hds : s.Deliverable ds) {n : MasterActor} (hn : s.TookPart ds n) : s.MayHear n := by
  obtain ⟨present, msg, hmem⟩ := hn
  obtain ⟨before, after, rfl⟩ := List.append_of_mem hmem
  obtain ⟨hbefore, hrest⟩ := admissible_append.mp hds
  obtain ⟨d, hstand, haddress, -⟩ := (hopen.follows_run hbefore).election _ msg hrest.1
  exact ⟨present, msg.round, d, hstand, haddress⟩

section Settled

variable {w : MasterActor} {latest : UInt64}

/-- The only master that a node is ever given is the winner, and only to another node. -/
theorem Settled.masterId_deliver (hs : s.Settled w latest) (h : s.Follows t) {p : MasterPacket}
    (hp : p ∈ t.inFlight) (n : MasterActor) (hn : s.actors n.localNodeId = some n) :
    (t.deliver p).masterId n.localNodeId = t.masterId n.localNodeId ∨
      n ≠ w ∧ (t.deliver p).masterId n.localNodeId = some w.localNodeId := by
  rcases t.masterId_deliver p n.localNodeId with hsame | ⟨id, rfl, hnew⟩
  · exact Or.inl hsame
  · obtain ⟨round, d, a, haccept, rfl, ha⟩ := h.update _ id hp
    obtain rfl := eq_of_localNodeId haccept.present hn ha
    obtain rfl := hs.alone round d a haccept
    refine Or.inr ⟨?_, ?_⟩
    · rintro rfl
      exact UInt32.lt_irrefl _ haccept.worse
    · obtain ⟨b, hb⟩ := h.kept _ a hn
      rw [hnew, masterId, hb, Option.map_some, Option.map_some]

theorem Settled.masterId_stable (hs : s.Settled w latest) (h : s.Follows t)
    {ds : List MasterPacket} (hds : t.Deliverable ds) {n : MasterActor}
    (hn : s.actors n.localNodeId = some n)
    (hmaster : t.masterId n.localNodeId = some w.localNodeId) :
    (run deliver t ds).masterId n.localNodeId = some w.localNodeId := by
  have hinv := invariant_run
    (I := fun u => s.Follows u ∧ u.masterId n.localNodeId = some w.localNodeId)
    (fun u p hu hp => by
      refine ⟨hu.1.step hp, ?_⟩
      rcases hs.masterId_deliver hu.1 hp n hn with hsame | ⟨-, hnew⟩
      · rw [hsame, hu.2]
      · exact hnew) ⟨h, hmaster⟩ hds
  exact hinv.2

/-- A node that may accept the winner in the latest round ends with it as master. -/
theorem Settled.masterId_of_mayAccept (hs : s.Settled w latest) (hopen : s.Opening)
    {ds : List MasterPacket} (hds : s.Deliverable ds) (hend : (run deliver s ds).inFlight = 0)
    {n : MasterActor} (hn : s.MayAccept latest w n) :
    (run deliver s ds).masterId n.localNodeId = some w.localNodeId := by
  obtain ⟨early, late, rfl⟩ := hopen.candidature_delivered hds hend hs.latest_le hn.stands
    (Or.inl hn.known)
  obtain ⟨hearly, hin, hlate⟩ := admissible_append.mp hds
  have hfollows := hopen.follows_run hearly
  obtain ⟨b, hb, hround⟩ := hfollows.exists_joinable hs.latest_le hn.present hn.fresh
  have hsent := hfollows.mem_deliver_accepting hn.present hb hround hn.worse
  have hfollows' := hfollows.step hin
  rw [run_append, run_cons] at hend ⊢
  generalize (run deliver s early).deliver _ = u at hend hsent hfollows' hlate ⊢
  obtain ⟨mid, last, rfl⟩ := descends_deliver.delivered hlate hend hsent
  obtain ⟨hmid, hin', hlast⟩ := admissible_append.mp hlate
  have hfollows'' := hfollows'.run_step hmid
  obtain ⟨b, hb⟩ := hfollows''.kept _ n hn.present
  rw [run_append, run_cons]
  exact hs.masterId_stable (hfollows''.step hin') hlast hn.present
    (masterId_deliver_updateMaster hb w.localNodeId)

theorem Settled.agrees (hs : s.Settled w latest) (hopen : s.Opening) {ds : List MasterPacket}
    (hds : s.Deliverable ds) (hend : (run deliver s ds).inFlight = 0) : s.Agrees ds := by
  have htook : s.TookPart ds w := by
    obtain ⟨d, hstand, haddress⟩ := hs.called
    obtain ⟨before, after, rfl⟩ := hopen.candidature_delivered hds hend hs.latest_le hstand haddress
    exact ⟨hs.present, d.candidature latest, by simp⟩
  intro v hv hleast n hn
  obtain rfl : v = w := by
    by_contra hne
    exact absurd (hleast w htook) (not_le.mpr (hs.ahead v (hopen.mayHear_of_tookPart hds hv) hne))
  have hmaster : s.masterId n.localNodeId = some n.state.masterId := by
    rw [masterId, hn.1, Option.map_some]
  by_cases hself : n = v
  · refine hs.masterId_stable hopen.follows hds hn.1 ?_
    rw [hmaster, hself, hs.own]
  · rcases hs.told n (hopen.mayHear_of_tookPart hds hn) hself with hown | haccept
    · exact hs.masterId_stable hopen.follows hds hn.1 (by rw [hmaster, hown])
    · exact hs.masterId_of_mayAccept hopen hds hend haccept

end Settled

/-! ## The condition is necessary where all nodes know each other -/

/-- Every actor has every other one in its map. -/
def Complete (s : MasterCluster) : Prop :=
  ∀ a b : MasterActor, s.actors a.localNodeId = some a → s.actors b.localNodeId = some b →
    a.localNodeId ≠ b.localNodeId → b.localNodeId ∈ a.nodes.keys

theorem Complete.addresses (h : s.Complete) {a b : MasterActor}
    (ha : s.actors a.localNodeId = some a) (hb : s.actors b.localNodeId = some b) :
    a.Addresses b.localNodeId := by
  by_cases hab : a.localNodeId = b.localNodeId
  · exact Or.inr hab.symm
  · exact Or.inl (h a b ha hb hab)

/-- A node that may stand can be made to, with no other round on the way. -/
theorem MayStand.exists_run (hopen : s.Opening) {round : UInt64} {c : MasterActor}
    (h : s.MayStand round c) : ∃ ds, s.Deliverable ds ∧
      (∀ q ∈ c.electionPackets round, q ∈ (run deliver s ds).inFlight) ∧
      ∀ n a b, s.actors n = some a → (run deliver s ds).actors n = some b →
        a.currentRound ≤ round → b.currentRound ≤ round := by
  induction h with
  | @starts a target present sent =>
      refine ⟨[], trivial, (hopen.broadcast present sent).2, ?_⟩
      intro n a b ha hb hle
      obtain rfl : a = b := Option.some.inj (ha.symm.trans hb)
      exact hle
  | @joins a d before present known ahead fresh ih =>
      obtain ⟨ds, hds, hflight, hrounds⟩ := ih
      have hfollows := hopen.follows_run hds
      have hin : ⟨a.localNodeId, .election (d.candidature round)⟩ ∈ (run deliver s ds).inFlight :=
        hflight _ (MasterActor.mem_electionPackets.mpr ⟨_, Or.inl known, rfl⟩)
      obtain ⟨b, hb⟩ := hfollows.kept _ a present
      have hround := hrounds _ a b present hb fresh
      refine ⟨ds ++ [⟨a.localNodeId, .election (d.candidature round)⟩],
        admissible_append.mpr ⟨hds, hin, trivial⟩, ?_, ?_⟩
      · intro q hq
        rw [run_append]
        exact hfollows.mem_deliver_standing present hb hround ahead hq
      · intro n a' b' ha' hb' hle
        rw [run_append, run_cons, run_nil] at hb'
        by_cases hn : n = a.localNodeId
        · subst hn
          have hactors := deliver_actors_target (t := run deliver s ds)
            ⟨a.localNodeId, .election (d.candidature round)⟩
          rw [hactors, hb, Option.map_some, Option.some.injEq] at hb'
          rcases b.handle_currentRound (.election (d.candidature round)) with hsame |
            ⟨msg, hmsg, -, hjoined⟩
          · rw [← hb', hsame]
            exact hround
          · rw [← hb', hjoined, ← MasterMessage.election.inj hmsg]
            exact UInt64.le_refl _
        · have hactors := deliver_actors_of_ne (t := run deliver s ds)
            (p := ⟨a.localNodeId, .election (d.candidature round)⟩) hn
          rw [hactors] at hb'
          exact hrounds n a' b' ha' hb' hle

/-- When an update is the last packet, the run ends with the master that it names. -/
theorem exists_run_of_last_update {n id : NodeId} {b : MasterActor} (hb : t.actors n = some b)
    (hlast : t.inFlight = {⟨n, .updateMaster id⟩}) : ∃ ds, t.Deliverable ds ∧
      (run deliver t ds).inFlight = 0 ∧ (run deliver t ds).masterId n = some id := by
  let p : MasterPacket := ⟨n, .updateMaster id⟩
  let q : MasterPacket :=
    ⟨b.localNodeId, .updateBackupMasters (MasterActor.selectBackups b.nodes id)⟩
  have hflight : (t.deliver p).inFlight = {q} := by
    change t.inFlight.erase p + ((t.actors n).elim [] fun a => (a.handle p.message).2 :
      List MasterPacket) = _
    rw [hlast, hb, Multiset.erase_singleton, zero_add]
    rfl
  have hend : ((t.deliver p).deliver q).inFlight = 0 := by
    change (t.deliver p).inFlight.erase q + (((t.deliver p).actors q.target).elim []
      fun a => (a.handle q.message).2 : List MasterPacket) = _
    rw [hflight, Multiset.erase_singleton, zero_add]
    cases (t.deliver p).actors q.target with
    | none => rfl
    | some a => rfl
  refine ⟨[p, q], ⟨?_, ?_, trivial⟩, hend, ?_⟩
  · change p ∈ t.inFlight
    rw [hlast]
    exact Multiset.mem_singleton_self _
  · change q ∈ (t.deliver p).inFlight
    rw [hflight]
    exact Multiset.mem_singleton_self _
  · rw [run_cons, run_cons, run_nil]
    rcases masterId_deliver (t.deliver p) q n with hsame | ⟨id', heq, -⟩
    · rw [hsame]
      exact masterId_deliver_updateMaster hb id
    · simp [q] at heq

/-- An acceptance that is possible can be the last one. -/
theorem MayAccept.exists_run (hopen : s.Opening) {round : UInt64} {c n : MasterActor}
    (h : s.MayAccept round c n) : ∃ ds, s.Deliverable ds ∧ (run deliver s ds).inFlight = 0 ∧
      (run deliver s ds).masterId n.localNodeId = some c.localNodeId := by
  obtain ⟨ds, hds, hflight, hrounds⟩ := h.stands.exists_run hopen
  have hfollows := hopen.follows_run hds
  obtain ⟨b, hb⟩ := hfollows.kept _ n h.present
  have hin := hflight _ (MasterActor.mem_electionPackets.mpr ⟨_, Or.inl h.known, rfl⟩)
  have hsent := hfollows.mem_deliver_accepting h.present hb
    (hrounds _ n b h.present hb h.fresh) h.worse
  obtain ⟨mid, hmid, hlast⟩ := descends_deliver.exists_delayed hsent
  obtain ⟨b', hb'⟩ := ((hfollows.step hin).run_step hmid).kept _ n h.present
  obtain ⟨late, hlate, hend, hmaster⟩ := exists_run_of_last_update hb' hlast
  refine ⟨ds ++ ⟨n.localNodeId, .election (c.candidature round)⟩ :: (mid ++ late), ?_, ?_, ?_⟩
  · exact admissible_append.mpr ⟨hds, hin, admissible_append.mpr ⟨hmid, hlate⟩⟩
  · rw [run_append, run_cons, run_append]
    exact hend
  · rw [run_append, run_cons, run_append]
    exact hmaster

theorem Opening.tookPart_of_complete (hopen : s.Opening) (hcomplete : s.Complete)
    {p : MasterPacket} (hp : p ∈ s.inFlight) {ds : List MasterPacket} (hds : s.Deliverable ds)
    (hend : (run deliver s ds).inFlight = 0) {n : MasterActor}
    (hn : s.actors n.localNodeId = some n) : s.TookPart ds n := by
  obtain ⟨a, round, present, -, -, hall⟩ := hopen p hp
  have hsent := hall _ (MasterActor.mem_electionPackets.mpr
    ⟨n.localNodeId, hcomplete.addresses present hn, rfl⟩)
  obtain ⟨before, after, rfl⟩ := descends_deliver.delivered hds hend hsent
  exact ⟨hn, a.candidature round, by simp⟩

theorem exists_least (hs : ∃ a, s.actors (MasterActor.localNodeId a) = some a) :
    ∃ w, s.actors (MasterActor.localNodeId w) = some w ∧
      ∀ n, s.actors (MasterActor.localNodeId n) = some n → w.rank ≤ n.rank := by
  let present : Set MasterActor := { a | s.actors a.localNodeId = some a }
  have hwf : WellFounded fun a b : MasterActor => a.rank < b.rank :=
    InvImage.wf MasterActor.rank wellFounded_lt
  obtain ⟨w, hw, hleast⟩ := hwf.has_min present hs
  exact ⟨w, hw, fun n hn => not_lt.mp (hleast n hn)⟩

/-- The node of least rank is never given a master. -/
theorem Follows.masterId_least (h : s.Follows t) {w : MasterActor}
    (hleast : ∀ n, s.actors (MasterActor.localNodeId n) = some n → w.rank ≤ n.rank)
    {ds : List MasterPacket} (hds : t.Deliverable ds) (hw : s.actors w.localNodeId = some w) :
    (run deliver t ds).masterId w.localNodeId = t.masterId w.localNodeId := by
  have hinv := invariant_run
    (I := fun u => s.Follows u ∧ u.masterId w.localNodeId = t.masterId w.localNodeId)
    (fun u p hu hp => by
      refine ⟨hu.1.step hp, ?_⟩
      rcases u.masterId_deliver p w.localNodeId with hsame | ⟨id, rfl, -⟩
      · rw [hsame, hu.2]
      · obtain ⟨round, d, a, haccept, -, ha⟩ := hu.1.update _ id hp
        obtain rfl := eq_of_localNodeId haccept.present hw ha
        exact absurd (hleast d haccept.stands.present)
          (not_le.mpr (MasterActor.rank_lt_of_priority_lt haccept.worse))) ⟨h, rfl⟩ hds
  exact hinv.2

/-- A master that a node did not have at the start was accepted by it. -/
theorem Opening.mayAccept_of_masterId (hopen : s.Opening) {ds : List MasterPacket}
    (hds : s.Deliverable ds) {n : MasterActor} (hn : s.actors n.localNodeId = some n)
    {id : NodeId} (hmaster : (run deliver s ds).masterId n.localNodeId = some id) :
    n.state.masterId = id ∨ ∃ round d, s.MayAccept round d n ∧ d.localNodeId = id := by
  have hinv := invariant_run
    (I := fun u => s.Follows u ∧ ∀ id, u.masterId n.localNodeId = some id →
      n.state.masterId = id ∨ ∃ round d, s.MayAccept round d n ∧ d.localNodeId = id)
    (fun u p hu hp => by
      refine ⟨hu.1.step hp, fun id hid => ?_⟩
      rcases u.masterId_deliver p n.localNodeId with hsame | ⟨id', rfl, hnew⟩
      · exact hu.2 id (hsame ▸ hid)
      · obtain ⟨round, d, a, haccept, hd, ha⟩ := hu.1.update _ id' hp
        obtain rfl := eq_of_localNodeId haccept.present hn ha
        rw [hnew, Option.map_eq_some_iff] at hid
        obtain ⟨-, -, rfl⟩ := hid
        exact Or.inr ⟨round, d, haccept, hd⟩)
    ⟨hopen.follows, fun id hid => by
      rw [masterId, hn, Option.map_some, Option.some.injEq] at hid
      exact Or.inl hid⟩ hds
  exact hinv.2 id hmaster

/-- Some node has started the latest round. -/
theorem Opening.exists_latest (hopen : s.Opening) {p : MasterPacket} (hp : p ∈ s.inFlight) :
    ∃ d latest, s.MayStand latest d ∧ d.state.masterId ≠ d.localNodeId ∧
      ∀ n msg, ⟨n, .election msg⟩ ∈ s.inFlight → msg.round ≤ latest := by
  let roundOf : MasterPacket → ℕ := fun q =>
    match q.message with
    | .election msg => msg.round.toNat
    | _ => 0
  obtain ⟨q, hq, hmax⟩ := s.inFlight.toFinset.exists_max_image roundOf
    ⟨p, Multiset.mem_toFinset.mpr hp⟩
  have hin := Multiset.mem_toFinset.mp hq
  obtain ⟨d, latest, present, hother, hmem, -⟩ := hopen q hin
  obtain ⟨n, -, rfl⟩ := MasterActor.mem_electionPackets.mp hmem
  refine ⟨d, latest, .starts present hin, hother, fun m msg hmsg => ?_⟩
  exact UInt64.le_iff_toNat_le.mpr (hmax _ (Multiset.mem_toFinset.mpr hmsg))

theorem Opening.settled_of_agrees (hopen : s.Opening) (hcomplete : s.Complete)
    {p : MasterPacket} (hp : p ∈ s.inFlight)
    (hagrees : ∀ ds, s.Deliverable ds → (run deliver s ds).inFlight = 0 → s.Agrees ds) :
    ∃ w latest, s.Settled w latest := by
  obtain ⟨d, latest, hstand, hother, hlatest⟩ := hopen.exists_latest hp
  obtain ⟨w, hw, hleast⟩ := exists_least ⟨d, hstand.present⟩
  have hmaster : ∀ ds, s.Deliverable ds → (run deliver s ds).inFlight = 0 →
      ∀ n, s.actors (MasterActor.localNodeId n) = some n →
        (run deliver s ds).masterId n.localNodeId = some w.localNodeId := by
    intro ds hds hend n hn
    have htook {m : MasterActor} (hm : s.actors m.localNodeId = some m) :=
      hopen.tookPart_of_complete hcomplete hp hds hend hm
    exact hagrees ds hds hend w (htook hw) (fun m hm => hleast m hm.1) n (htook hn)
  obtain ⟨ds, hds, hend⟩ := descends_deliver.exists_completed s
  have hown : w.state.masterId = w.localNodeId := by
    have hfinal := hmaster ds hds hend w hw
    rw [hopen.follows.masterId_least hleast hds hw, masterId, hw, Option.map_some] at hfinal
    exact Option.some.inj hfinal
  have hahead : ∀ n, s.MayHear n → n ≠ w → w.rank < n.rank := by
    intro n hn hne
    refine lt_of_le_of_ne (hleast n hn.1) fun hrank => hne ?_
    have hid : w.localNodeId.val = n.localNodeId.val := congrArg (fun r => (ofLex r).2) hrank
    exact eq_of_localNodeId hn.1 hw (Fin.ext hid.symm)
  have hdw : d.localNodeId ≠ w.localNodeId := by
    intro hid
    rw [eq_of_localNodeId hstand.present hw hid] at hother
    exact hother hown
  refine ⟨w, latest, hw, hown, hlatest, ⟨d, hstand, hcomplete.addresses hstand.present hw⟩, ?_,
    hahead, ?_⟩
  · intro round c n haccept
    obtain ⟨ds', hds', hend', hlast⟩ := haccept.exists_run hopen
    rw [hmaster ds' hds' hend' n haccept.present] at hlast
    exact eq_of_localNodeId haccept.stands.present hw (Option.some.inj hlast).symm
  · intro n hn hne
    refine (hopen.mayAccept_of_masterId hds hn.1 (hmaster ds hds hend n hn.1)).imp_right ?_
    rintro ⟨round, c, haccept, hid⟩
    obtain rfl := eq_of_localNodeId haccept.stands.present hw hid
    obtain ⟨target, c', hstarted⟩ := haccept.stands.started
    have hle : round ≤ latest := hlatest _ _ hstarted
    refine ⟨?_, haccept.present, haccept.known, UInt64.le_trans haccept.fresh hle, haccept.worse⟩
    cases haccept.stands with
    | starts present sent => exact absurd hown (hopen.broadcast present sent).1
    | joins _ present _ _ fresh =>
        refine .joins hstand present (hcomplete d c hstand.present present hdw) ?_
          (UInt64.le_trans fresh hle)
        exact hahead d ⟨hstand.present, latest, d, hstand, Or.inr rfl⟩ fun h => hdw (by rw [h])

/-- The cluster after health checks of its actors, with nothing in flight before them. -/
def start (s : MasterCluster) (checks : List (NodeId × ℕ)) : MasterCluster :=
  run checkMasterHealth { s with inFlight := 0 } checks

theorem exists_actor_checkMasterHealth (check : NodeId × ℕ) {a : MasterActor}
    (ha : s.actors a.localNodeId = some a) : ∃ a' : MasterActor,
      (s.checkMasterHealth check).actors a'.localNodeId = some a' ∧
      a'.localNodeId = a.localNodeId ∧ a'.nodes = a.nodes ∧ a'.state = a.state := by
  by_cases hn : a.localNodeId = check.1
  · obtain ⟨hid, hnodes, hstate⟩ := a.handleCheckMasterHealth_node check.2
    refine ⟨_, ?_, hid, hnodes, hstate⟩
    rw [hid, hn]
    refine (Function.update_self _ _ _).trans ?_
    rw [← hn, ha, Option.map_some]
  · exact ⟨a, (Function.update_of_ne hn _ _).trans ha, rfl, rfl, rfl⟩

theorem mem_checkMasterHealth {check : NodeId × ℕ} {p : MasterPacket} :
    p ∈ (s.checkMasterHealth check).inFlight ↔ p ∈ s.inFlight ∨
      ∃ a, s.actors check.1 = some a ∧ p ∈ (a.handleCheckMasterHealth check.2).2 := by
  change p ∈ s.inFlight + _ ↔ _
  rw [Multiset.mem_add]
  cases s.actors check.1 with
  | none => simp
  | some a => simp

theorem Opening.checkMasterHealth (h : s.Opening) (check : NodeId × ℕ) :
    (s.checkMasterHealth check).Opening := by
  intro p hp
  rcases mem_checkMasterHealth.mp hp with hold | ⟨a, ha, hnew⟩
  · obtain ⟨a, round, present, hother, hmem, hall⟩ := h p hold
    obtain ⟨a', present', hid, hnodes, hstate⟩ := exists_actor_checkMasterHealth check present
    refine ⟨a', round, present', by rwa [hstate, hid], ?_⟩
    rw [MasterActor.electionPackets_congr hid hnodes]
    exact ⟨hmem, fun q hq => mem_checkMasterHealth.mpr (Or.inl (hall q hq))⟩
  · have present : s.actors a.localNodeId = some a := by rw [s.named _ a ha, ha]
    obtain ⟨a', present', hid, hnodes, hstate⟩ := exists_actor_checkMasterHealth check present
    rcases a.handleCheckMasterHealth_cases check.2 with heq | heq | ⟨hother, heq⟩
    · simp [heq] at hnew
    · simp [heq] at hnew
    · refine ⟨a', a.currentRound + 1, present', by rwa [hstate, hid], ?_⟩
      rw [MasterActor.electionPackets_congr hid hnodes]
      simp only [heq] at hnew
      exact ⟨hnew, fun q hq => mem_checkMasterHealth.mpr (Or.inr ⟨a, ha, by rw [heq]; exact hq⟩)⟩

theorem opening_start (s : MasterCluster) (checks : List (NodeId × ℕ)) :
    (s.start checks).Opening := by
  have hstep (s : MasterCluster) (check : NodeId × ℕ) (h : s.Opening) (_ : True) :
      (s.checkMasterHealth check).Opening := h.checkMasterHealth check
  exact invariant_run hstep (fun p hp => absurd hp (Multiset.notMem_zero p))
    (admissible_iff_forall.mpr (by simp))

/-- Every order of the deliveries ends in agreement when nobody started an election or the start
was settled, and where all nodes know each other only then. -/
theorem election_agreement (s : MasterCluster) (checks : List (NodeId × ℕ)) :
    ((s.start checks).inFlight = 0 ∨ (∃ w latest, (s.start checks).Settled w latest) →
      ∀ ds, (s.start checks).Deliverable ds →
        (run deliver (s.start checks) ds).inFlight = 0 → (s.start checks).Agrees ds) ∧
    ((s.start checks).Complete →
      (∀ ds, (s.start checks).Deliverable ds →
        (run deliver (s.start checks) ds).inFlight = 0 → (s.start checks).Agrees ds) →
      (s.start checks).inFlight = 0 ∨ ∃ w latest, (s.start checks).Settled w latest) := by
  have hopen := s.opening_start checks
  generalize s.start checks = s at hopen ⊢
  constructor
  · rintro (hcalm | ⟨w, latest, hsettled⟩) ds hds hend
    · intro w hw
      obtain ⟨-, round, d, hstand, -⟩ := hopen.mayHear_of_tookPart hds hw
      obtain ⟨target, c, hstarted⟩ := hstand.started
      rw [hcalm] at hstarted
      exact absurd hstarted (Multiset.notMem_zero _)
    · exact hsettled.agrees hopen hds hend
  · intro hcomplete hagrees
    rcases Multiset.empty_or_exists_mem s.inFlight with hcalm | ⟨p, hp⟩
    · exact Or.inl hcalm
    · exact Or.inr (hopen.settled_of_agrees hcomplete hp hagrees)

/-! ## Two nodes -/

def memberInfo (id : NodeId) (load : UInt8) : NodeInfo :=
  ⟨id, "member", .master, .v4 ⟨0x7f000001, 8080⟩, .up, none, [], load, ∅⟩

/-- The load of a node is its number, so the first node ranks before the second. -/
def memberMap : NodeMap := ⟨[(1, memberInfo 1 1), (2, memberInfo 2 2)], by simp⟩

def member (id masterId backup : NodeId) : MasterActor :=
  { MasterActor.new id memberMap 0 with state := ⟨masterId, [backup], 0, 0⟩ }

/-- Two nodes with the given masters and one backup master. -/
def members (masters : NodeId → NodeId) (backup : NodeId) : MasterCluster where
  actors n := if n = 1 ∨ n = 2 then some (member n (masters n) backup) else none
  named n a ha := by
    split_ifs at ha
    rw [← Option.some.inj ha]
    rfl
  inFlight := 0

/-- The health check of the backup master, later than the election timeout. -/
def timeout (backup : NodeId) : List (NodeId × ℕ) := [(backup, 6 * 10 ^ 9)]

section Members

variable {masters : NodeId → NodeId} {backup : NodeId}

theorem handleCheckMasterHealth_member (h : masters backup ≠ backup) :
    (member backup (masters backup) backup).handleCheckMasterHealth (6 * 10 ^ 9) =
      (member backup (masters backup) backup,
        (member backup (masters backup) backup).electionPackets 1) := by
  simp [MasterActor.handleCheckMasterHealth, member, MasterActor.new, h]

theorem members_start (h : masters backup ≠ backup) (hbackup : backup = 1 ∨ backup = 2) :
    ((members masters backup).start (timeout backup)).actors = (members masters backup).actors ∧
      ((members masters backup).start (timeout backup)).inFlight =
        ((member backup (masters backup) backup).electionPackets 1 : List MasterPacket) := by
  have hactor : (members masters backup).actors backup =
      some (member backup (masters backup) backup) := if_pos hbackup
  constructor
  · change Function.update (members masters backup).actors backup
      (((members masters backup).actors backup).map fun a =>
        (a.handleCheckMasterHealth (6 * 10 ^ 9)).1) = _
    rw [hactor, Option.map_some, handleCheckMasterHealth_member h, ← hactor,
      Function.update_eq_self]
  · change (0 : Multiset MasterPacket) + ((members masters backup).actors backup).elim []
      (fun a => (a.handleCheckMasterHealth (6 * 10 ^ 9)).2) = _
    rw [hactor, Option.elim_some, handleCheckMasterHealth_member h, zero_add]

theorem eq_member_of_present {a : MasterActor}
    (h : (members masters backup).actors a.localNodeId = some a) :
    a = member 1 (masters 1) backup ∨ a = member 2 (masters 2) backup := by
  simp only [members] at h
  split_ifs at h with hid
  have heq := Option.some.inj h
  rcases hid with hid | hid
  · exact Or.inl (by rw [← heq, hid])
  · exact Or.inr (by rw [← heq, hid])

theorem rank_member_lt (m m' b b' : NodeId) : (member 1 m b).rank < (member 2 m' b').rank := by
  change (member 1 1 1).rank < (member 2 1 1).rank
  decide +kernel

end Members

/-- The first node is its own master, and the second one has lost its master. -/
def lostMaster : NodeId → NodeId := fun n => if n = 1 then 1 else 3

theorem settled_lostMaster :
    ((members lostMaster 2).start (timeout 2)).Settled (member 1 1 2) 1 := by
  obtain ⟨hactors, hflight⟩ := @members_start lostMaster 2 (by decide) (Or.inr rfl)
  have hfirst : ((members lostMaster 2).start (timeout 2)).actors 1 = some (member 1 1 2) := by
    rw [hactors]
    rfl
  have hsecond : ((members lostMaster 2).start (timeout 2)).actors 2 = some (member 2 3 2) := by
    rw [hactors]
    rfl
  have hpresent {a : MasterActor}
      (h : ((members lostMaster 2).start (timeout 2)).actors a.localNodeId = some a) :
      a = member 1 1 2 ∨ a = member 2 3 2 := by
    rw [hactors] at h
    exact eq_member_of_present h
  have hstarts : ((members lostMaster 2).start (timeout 2)).MayStand 1 (member 2 3 2) := by
    refine @MayStand.starts _ _ (member 2 3 2) 1 hsecond ?_
    rw [hflight]
    exact MasterActor.mem_electionPackets.mpr ⟨1, Or.inl (by decide +kernel), rfl⟩
  have hjoins : ((members lostMaster 2).start (timeout 2)).MayStand 1 (member 1 1 2) :=
    .joins hstarts hfirst (by decide +kernel) (rank_member_lt _ _ _ _) (by decide +kernel)
  refine ⟨hfirst, rfl, ?_, ⟨_, hjoins, Or.inr rfl⟩, ?_, ?_, ?_⟩
  · intro n msg hmsg
    rw [hflight] at hmsg
    obtain ⟨m, -, heq⟩ := MasterActor.mem_electionPackets.mp hmsg
    rw [MasterPacket.mk.injEq, MasterMessage.election.injEq] at heq
    rw [heq.2]
    exact UInt64.le_refl _
  · intro round c n haccept
    rcases hpresent haccept.stands.present with rfl | rfl
    · rfl
    · rcases hpresent haccept.present with rfl | rfl
      · exact absurd haccept.worse (by decide +kernel)
      · exact absurd haccept.worse (UInt32.lt_irrefl _)
  · intro n hn hne
    obtain rfl := (hpresent hn.1).resolve_left hne
    exact rank_member_lt _ _ _ _
  · intro n hn hne
    obtain rfl := (hpresent hn.1).resolve_left hne
    exact Or.inr ⟨hjoins, hsecond, by decide +kernel, by decide +kernel, by decide +kernel⟩

/-- A node that has lost its master accepts the first node. -/
theorem election_agreement_lostMaster :
    ((members lostMaster 2).start (timeout 2)).Settled (member 1 1 2) 1 ∧
      ∀ ds, ((members lostMaster 2).start (timeout 2)).Deliverable ds →
        (run deliver ((members lostMaster 2).start (timeout 2)) ds).inFlight = 0 →
        ((members lostMaster 2).start (timeout 2)).Agrees ds :=
  ⟨settled_lostMaster, (election_agreement _ _).1 (Or.inr ⟨_, _, settled_lostMaster⟩)⟩

/-- Both nodes have lost their master. The first one starts an election that it wins, and keeps the
lost master. -/
theorem not_election_agreement : ¬ ∀ (s : MasterCluster) (checks : List (NodeId × ℕ))
    (ds : List MasterPacket), (s.start checks).Deliverable ds →
      (run deliver (s.start checks) ds).inFlight = 0 → (s.start checks).Agrees ds := by
  intro h
  let w : MasterActor := member 1 3 1
  let ds : List MasterPacket := [⟨2, .election (w.candidature 1)⟩,
    ⟨1, .election (w.candidature 1)⟩, ⟨2, .updateMaster 1⟩, ⟨2, .updateBackupMasters [2]⟩]
  obtain ⟨hactors, -⟩ := @members_start (fun _ => 3) 1 (by decide) (Or.inl rfl)
  have hw : ((members (fun _ => 3) 1).start (timeout 1)).TookPart ds w :=
    ⟨by rw [hactors]; rfl, w.candidature 1, by decide +kernel⟩
  have hmaster := h (members (fun _ => 3) 1) (timeout 1) ds (by unfold Deliverable; decide +kernel)
    (by decide +kernel) w hw (fun n hn => by
      have hpresent := hn.1
      rw [hactors] at hpresent
      rcases eq_member_of_present hpresent with rfl | rfl
      · exact le_refl _
      · exact (rank_member_lt 3 3 1 1).le) w hw
  revert hmaster
  decide +kernel

end MasterCluster

end ActixPura
