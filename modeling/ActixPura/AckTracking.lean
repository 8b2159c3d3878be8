import ActixPura.Broker

/-!
# Acknowledgements of pending messages

A pending message is removed by `handle_message_ack` when as many nodes have acknowledged it as it
has targets. The nodes themselves are not compared. Because every acknowledgement adds at most one
node, the number of nodes is below the number of targets as long as the message is pending, so a
message that all targets have acknowledged is never pending. A message is removed too early exactly
when nodes have acknowledged it that are no targets.
-/

namespace ActixPura

open Runs

/-- The nodes whose acknowledgements were handled since the message was last entered. -/
def ackersFrom (id : Uuid) (nodes : Finset NodeId) : List BrokerEvent → Finset NodeId
  | [] => nodes
  | .tracked id' _ :: events => ackersFrom id (if id' = id then ∅ else nodes) events
  | .acked ack :: events =>
    ackersFrom id (if ack.messageId = id then insert ack.nodeId nodes else nodes) events
  | _ :: events => ackersFrom id nodes events

def ackers (id : Uuid) (log : List BrokerEvent) : Finset NodeId := ackersFrom id ∅ log

theorem ackersFrom_append (id : Uuid) (nodes : Finset NodeId) (log events : List BrokerEvent) :
    ackersFrom id nodes (log ++ events) = ackersFrom id (ackersFrom id nodes log) events := by
  induction log generalizing nodes with
  | nil => rfl
  | cons e log ih =>
      cases e with
      | _ => exact ih _

theorem ackers_append (id : Uuid) (log events : List BrokerEvent) :
    ackers id (log ++ events) = ackersFrom id (ackers id log) events :=
  ackersFrom_append id ∅ log events

theorem ackersFrom_quiet {id : Uuid} {nodes : Finset NodeId} {events : List BrokerEvent}
    (htracked : ∀ id' targets, .tracked id' targets ∉ events)
    (hacked : ∀ ack, .acked ack ∉ events) : ackersFrom id nodes events = nodes := by
  induction events with
  | nil => rfl
  | cons e events ih =>
      have hrest := ih (fun id' targets h => htracked id' targets (List.mem_cons_of_mem _ h))
        fun ack h => hacked ack (List.mem_cons_of_mem _ h)
      cases e with
      | tracked id' targets => exact absurd List.mem_cons_self (htracked id' targets)
      | acked ack => exact absurd List.mem_cons_self (hacked ack)
      | _ => exact hrest

theorem ackersFrom_advance {id : Uuid} {nodes : Finset NodeId} {b : NetworkBroker} {k : ℕ}
    {clock : ClockReading} {sendOk : Bool} {task : Task}
    (htrack : ∀ message targets, task ≠ .track message targets)
    (hack : ∀ ack, task ≠ .handleMessageAck ack) :
    ackersFrom id nodes (b.advance k clock sendOk task).2.2 = nodes := by
  refine ackersFrom_quiet (fun id' targets h => ?_) fun ack h => ?_
  · obtain ⟨message, htask, -⟩ := NetworkBroker.origin_of_mem h
    exact htrack message targets htask
  · exact hack ack (NetworkBroker.origin_of_mem h)

theorem ackers_advance (id : Uuid) (log : List BrokerEvent) (b : NetworkBroker) (k : ℕ)
    (clock : ClockReading) (sendOk : Bool) (task : Task) :
    ackers id (log ++ (b.advance k clock sendOk task).2.2) =
      match task with
      | .track message _ =>
        if message.deliveryGuarantee ≠ .atMostOnce ∧ message.id = id then ∅ else ackers id log
      | .handleMessageAck ack =>
        if ack.messageId = id then insert ack.nodeId (ackers id log) else ackers id log
      | _ => ackers id log := by
  rw [ackers_append]
  cases task with
  | track message targets =>
      simp only [NetworkBroker.advance]
      by_cases h : message.deliveryGuarantee = .atMostOnce
      · simp [h, ackersFrom]
      · simp [h, ackersFrom]
  | handleMessageAck ack => rfl
  | _ => exact ackersFrom_advance (fun _ _ => Task.noConfusion) fun _ => Task.noConfusion

/-- A publication that goes on to remote nodes has targets. -/
def Task.HasTargets : Task → Prop
  | .resequence _ targets => targets ≠ ∅
  | .track _ targets => targets ≠ ∅
  | _ => True

theorem hasTargets_next {b : NetworkBroker} {clock : ClockReading} {task task' : Task}
    {events : List BrokerEvent} (hnext : b.Next clock task task' events) (h : task.HasTargets) :
    task'.HasTargets := by
  cases hnext with
  | findTargets htargets => exact htargets
  | resequence _ => exact h
  | _ => exact trivial

/-- Only entering a message and handling an acknowledgement concern the acknowledgements. -/
theorem advance_pending_cases (b : NetworkBroker) (k : ℕ) (clock : ClockReading) (sendOk : Bool)
    (task : Task) : (∃ message targets, task = .track message targets) ∨
      (∃ ack, task = .handleMessageAck ack) ∨
      NetworkBroker.Keeps b.pendingMessages (b.advance k clock sendOk task).1.pendingMessages ∧
        ∀ id log, ackers id (log ++ (b.advance k clock sendOk task).2.2) = ackers id log := by
  simp only [ackers_advance, NetworkBroker.advance_network]
  cases task with
  | track message targets => exact Or.inl ⟨message, targets, rfl⟩
  | handleMessageAck ack => exact Or.inr (Or.inl ⟨ack, rfl⟩)
  | updateRetries plan => exact Or.inr (Or.inr ⟨b.keeps_updateRetries plan, fun _ _ => rfl⟩)
  | removeExpired plan => exact Or.inr (Or.inr ⟨b.keeps_removeExpired plan, fun _ _ => rfl⟩)
  | _ => exact Or.inr (Or.inr ⟨.refl _, fun _ _ => rfl⟩)

theorem NetworkBroker.handleMessageAck_of_none (b : NetworkBroker) {ack : MessageAck}
    (h : b.pendingMessages[ack.messageId]? = none) :
    (b.handleMessageAck ack).pendingMessages = b.pendingMessages := by
  simp only [handleMessageAck, h]

theorem NetworkBroker.handleMessageAck_of_some (b : NetworkBroker) {ack : MessageAck}
    {msg : PendingMessage} (h : b.pendingMessages[ack.messageId]? = some msg) :
    (b.handleMessageAck ack).pendingMessages =
      if (insert ack.nodeId msg.ackedBy).card = msg.targetNodes.card then
        b.pendingMessages.erase ack.messageId
      else b.pendingMessages.insert ack.messageId
        { msg with ackedBy := insert ack.nodeId msg.ackedBy } := by
  simp only [handleMessageAck, h]

namespace BrokerNode

/-- An entry of the table against the log. -/
structure Accounted (log : List BrokerEvent) (id : Uuid) (p : PendingMessage) : Prop where
  acked : p.ackedBy = ackers id log
  below : p.ackedBy.card < p.targetNodes.card

structure PendingAccounted (n : BrokerNode) : Prop where
  targets : ∀ task ∈ n.tasks, task.HasTargets
  pending : ∀ (id : Uuid) (p : PendingMessage), n.network.pendingMessages[id]? = some p →
    Accounted n.log id p

variable {n : BrokerNode}

theorem accounted_track {b : NetworkBroker} {log : List BrokerEvent}
    (h : ∀ (id : Uuid) (p : PendingMessage), b.pendingMessages[id]? = some p → Accounted log id p)
    (k : ℕ) (clock : ClockReading) (sendOk : Bool) (message : BrokerMessage)
    {targets : Finset NodeId}
    (htargets : targets ≠ ∅) (id : Uuid) (p : PendingMessage)
    (hp : (b.track message targets clock.instant).pendingMessages[id]? = some p) :
    Accounted (log ++ (b.advance k clock sendOk (.track message targets)).2.2) id p := by
  simp only [NetworkBroker.track] at hp
  by_cases hmost : message.deliveryGuarantee = .atMostOnce
  · rw [if_pos hmost] at hp
    refine ⟨?_, (h id p hp).below⟩
    rw [ackers_advance]
    simp only [hmost, ne_eq, not_true_eq_false, false_and, if_false]
    exact (h id p hp).acked
  · rw [if_neg hmost, Std.ExtTreeMap.getElem?_insert] at hp
    simp only [Std.compare_eq_iff_eq] at hp
    split_ifs at hp with hid
    · rw [← Option.some.inj hp]
      refine ⟨?_, ?_⟩
      · rw [ackers_advance]
        exact (if_pos ⟨hmost, hid⟩).symm
      · exact Finset.card_pos.mpr (Finset.nonempty_iff_ne_empty.mpr htargets)
    · refine ⟨?_, (h id p hp).below⟩
      rw [ackers_advance]
      simp only [hid, and_false, if_false]
      exact (h id p hp).acked

theorem accounted_handleMessageAck {b : NetworkBroker} {log : List BrokerEvent}
    (h : ∀ (id : Uuid) (p : PendingMessage), b.pendingMessages[id]? = some p → Accounted log id p)
    (k : ℕ) (clock : ClockReading) (sendOk : Bool) (ack : MessageAck) (id : Uuid)
    (p : PendingMessage)
    (hp : (b.handleMessageAck ack).pendingMessages[id]? = some p) :
    Accounted (log ++ (b.advance k clock sendOk (.handleMessageAck ack)).2.2) id p := by
  have hother (hid : ack.messageId ≠ id) (hp : b.pendingMessages[id]? = some p) :
      Accounted (log ++ (b.advance k clock sendOk (.handleMessageAck ack)).2.2) id p := by
    refine ⟨?_, (h id p hp).below⟩
    rw [ackers_advance]
    simp only [if_neg hid]
    exact (h id p hp).acked
  cases hold : b.pendingMessages[ack.messageId]? with
  | none =>
      rw [b.handleMessageAck_of_none hold] at hp
      exact hother (fun hid => by simp [← hid, hold] at hp) hp
  | some msg =>
      rw [b.handleMessageAck_of_some hold] at hp
      split_ifs at hp with hfull
      · rw [Std.ExtTreeMap.getElem?_erase] at hp
        simp only [Std.compare_eq_iff_eq] at hp
        split_ifs at hp with hid
        exact hother hid hp
      · rw [Std.ExtTreeMap.getElem?_insert] at hp
        simp only [Std.compare_eq_iff_eq] at hp
        split_ifs at hp with hid
        · subst hid
          rw [← Option.some.inj hp]
          refine ⟨?_, ?_⟩
          · rw [ackers_advance]
            simp only [if_true, (h _ msg hold).acked]
          · have hle := Finset.card_insert_le ack.nodeId msg.ackedBy
            have hbelow := (h _ msg hold).below
            change (insert ack.nodeId msg.ackedBy).card < msg.targetNodes.card
            omega
        · exact hother hid hp

theorem pendingAccounted_advance (h : n.PendingAccounted) {k : ℕ} {task : Task}
    (htask : n.tasks[k]? = some task) (clock : ClockReading) (sendOk : Bool) :
    (n.advance k clock sendOk).PendingAccounted := by
  rw [advance_eq htask]
  refine ⟨forall_tasks_set h.targets k (hasTargets_next
    (n.network.next_advance k clock sendOk task) (h.targets _ (List.mem_of_getElem? htask))), ?_⟩
  rcases advance_pending_cases n.network k clock sendOk task with ⟨message, targets, rfl⟩ |
    ⟨ack, rfl⟩ | ⟨hkeeps, hackers⟩
  · exact accounted_track h.pending k clock sendOk message
      (h.targets _ (List.mem_of_getElem? htask))
  · exact accounted_handleMessageAck h.pending k clock sendOk ack
  · intro id p' hp'
    obtain ⟨p, hp, -, hacked, htargets⟩ := hkeeps id p' hp'
    refine ⟨?_, ?_⟩
    · rw [hacked, hackers]
      exact (h.pending id p hp).acked
    · rw [hacked, htargets]
      exact (h.pending id p hp).below

/-- The acknowledgement that a task is about to handle. -/
def acknowledgement (n : BrokerNode) (k : ℕ) : Option MessageAck :=
  match n.tasks[k]? with
  | some (.handleMessageAck ack) => some ack
  | _ => none

theorem acknowledgement_eq_some {k : ℕ} {ack : MessageAck} :
    n.acknowledgement k = some ack ↔ n.tasks[k]? = some (.handleMessageAck ack) := by
  unfold acknowledgement
  split
  · rename_i ack' htask
    rw [htask, Option.some.injEq, Option.some.injEq, Task.handleMessageAck.injEq]
  · rename_i hnot
    exact ⟨fun h => by simp at h, fun h => absurd h (hnot ack)⟩

/-- An acknowledgement of a pending message comes from one of its targets. -/
def FromTarget (n : BrokerNode) : BrokerAction → Prop
  | .advance k _ _ => ∀ ack ∈ n.acknowledgement k,
      ∀ p ∈ n.network.pendingMessages[ack.messageId]?, ack.nodeId ∈ p.targetNodes
  | _ => True

instance decidableFromTarget (n : BrokerNode) (a : BrokerAction) : Decidable (n.FromTarget a) :=
  match a with
  | .call _ => isTrue trivial
  | .membership _ => isTrue trivial
  | .advance k _ _ => inferInstanceAs (Decidable (∀ ack ∈ n.acknowledgement k,
      ∀ p ∈ n.network.pendingMessages[ack.messageId]?, ack.nodeId ∈ p.targetNodes))

/-- An acknowledgement removes a message only when all its targets have acknowledged it. -/
def RemovesComplete (n : BrokerNode) : BrokerAction → Prop
  | .advance k clock sendOk => ∀ ack id p, n.tasks[k]? = some (.handleMessageAck ack) →
      n.network.pendingMessages[id]? = some p →
      (n.advance k clock sendOk).network.pendingMessages[id]? = none →
      p.targetNodes ⊆ ackers id (n.advance k clock sendOk).log
  | _ => True

/-- No message is pending that all its targets have acknowledged. -/
def NoneOverdue (n : BrokerNode) : Prop :=
  ∀ (id : Uuid) (p : PendingMessage), n.network.pendingMessages[id]? = some p →
    ¬ p.targetNodes ⊆ ackers id n.log

theorem PendingAccounted.noneOverdue (h : n.PendingAccounted) : n.NoneOverdue := by
  intro id p hp hsub
  rw [← (h.pending id p hp).acked] at hsub
  exact absurd (Finset.card_le_card hsub) (not_le.mpr (h.pending id p hp).below)

def OnlyTargets (n : BrokerNode) : Prop :=
  ∀ (id : Uuid) (p : PendingMessage), n.network.pendingMessages[id]? = some p →
    p.ackedBy ⊆ p.targetNodes

theorem onlyTargets_handleMessageAck {b : NetworkBroker} {ack : MessageAck}
    (h : ∀ (id : Uuid) (p : PendingMessage), b.pendingMessages[id]? = some p →
      p.ackedBy ⊆ p.targetNodes)
    (hfrom : ∀ p, b.pendingMessages[ack.messageId]? = some p → ack.nodeId ∈ p.targetNodes)
    (id : Uuid) (p : PendingMessage)
    (hp : (b.handleMessageAck ack).pendingMessages[id]? = some p) : p.ackedBy ⊆ p.targetNodes := by
  cases hold : b.pendingMessages[ack.messageId]? with
  | none =>
      rw [b.handleMessageAck_of_none hold] at hp
      exact h id p hp
  | some msg =>
      rw [b.handleMessageAck_of_some hold] at hp
      split_ifs at hp
      · rw [Std.ExtTreeMap.getElem?_erase] at hp
        split_ifs at hp
        exact h id p hp
      · rw [Std.ExtTreeMap.getElem?_insert] at hp
        split_ifs at hp
        · rw [← Option.some.inj hp]
          exact Finset.insert_subset (hfrom msg hold) (h _ msg hold)
        · exact h id p hp

theorem onlyTargets_advance (h : n.OnlyTargets) {k : ℕ} {task : Task}
    (htask : n.tasks[k]? = some task) (clock : ClockReading) (sendOk : Bool)
    (hfrom : n.FromTarget (.advance k clock sendOk)) : (n.advance k clock sendOk).OnlyTargets := by
  rw [advance_eq htask]
  rcases advance_pending_cases n.network k clock sendOk task with ⟨message, targets, rfl⟩ |
    ⟨ack, rfl⟩ | ⟨hkeeps, -⟩
  · intro id p hp
    simp only [NetworkBroker.advance, NetworkBroker.track] at hp
    split_ifs at hp
    · exact h id p hp
    · rw [Std.ExtTreeMap.getElem?_insert] at hp
      split_ifs at hp
      · rw [← Option.some.inj hp]
        exact Finset.empty_subset _
      · exact h id p hp
  · exact onlyTargets_handleMessageAck h (hfrom ack (acknowledgement_eq_some.mpr htask))
  · intro id p' hp'
    obtain ⟨p, hp, -, hacked, htargets⟩ := hkeeps id p' hp'
    rw [hacked, htargets]
    exact h id p hp

/-- An acknowledgement that removes a message brings the number of nodes to the number of
targets. -/
theorem removed_by_ack {k : ℕ} {ack : MessageAck}
    (htask : n.tasks[k]? = some (.handleMessageAck ack)) (clock : ClockReading) (sendOk : Bool)
    {id : Uuid} {p : PendingMessage} (hp : n.network.pendingMessages[id]? = some p)
    (hnone : (n.advance k clock sendOk).network.pendingMessages[id]? = none) :
    ack.messageId = id ∧ (insert ack.nodeId p.ackedBy).card = p.targetNodes.card := by
  rw [advance_eq htask] at hnone
  change (n.network.handleMessageAck ack).pendingMessages[id]? = none at hnone
  cases hold : n.network.pendingMessages[ack.messageId]? with
  | none => simp [n.network.handleMessageAck_of_none hold, hp] at hnone
  | some msg =>
      rw [n.network.handleMessageAck_of_some hold] at hnone
      by_cases hid : ack.messageId = id
      · subst hid
        obtain rfl : msg = p := Option.some.inj (hold.symm.trans hp)
        split_ifs at hnone with hfull
        · exact ⟨rfl, hfull⟩
        · simp at hnone
      · split_ifs at hnone
        · simp [Std.ExtTreeMap.getElem?_erase, hid, hp] at hnone
        · simp [Std.ExtTreeMap.getElem?_insert, hid, hp] at hnone

theorem removesComplete_of_onlyTargets (h : n.PendingAccounted) (honly : n.OnlyTargets)
    {a : BrokerAction} (hfrom : n.FromTarget a) : n.RemovesComplete a := by
  cases a with
  | call task => trivial
  | membership nodes => trivial
  | advance k clock sendOk =>
      intro ack id p htask hp hnone
      obtain ⟨rfl, hfull⟩ := removed_by_ack htask clock sendOk hp hnone
      have hsub := Finset.insert_subset
        (hfrom ack (acknowledgement_eq_some.mpr htask) p hp) (honly _ p hp)
      rw [advance_eq htask, ackers_advance]
      simp only [if_true, ← (h.pending _ p hp).acked]
      exact (Finset.eq_of_subset_of_card_le hsub hfull.ge).ge

/-! ## An acknowledgement from elsewhere can always do harm -/

/-- A removal with an acknowledgement from elsewhere is not complete. -/
theorem not_removesComplete (h : n.PendingAccounted) {k : ℕ} {ack : MessageAck}
    (htask : n.tasks[k]? = some (.handleMessageAck ack)) (clock : ClockReading) (sendOk : Bool)
    {p : PendingMessage} (hp : n.network.pendingMessages[ack.messageId]? = some p)
    (hfull : (insert ack.nodeId p.ackedBy).card = p.targetNodes.card) {x : NodeId}
    (hx : x ∈ insert ack.nodeId p.ackedBy) (hother : x ∉ p.targetNodes) :
    ¬ n.RemovesComplete (.advance k clock sendOk) := by
  intro hcomplete
  have hsub := hcomplete ack _ p htask hp (by
    rw [advance_eq htask]
    change (n.network.handleMessageAck ack).pendingMessages[ack.messageId]? = none
    rw [n.network.handleMessageAck_of_some hp, if_pos hfull]
    simp)
  rw [advance_eq htask, ackers_advance] at hsub
  simp only [if_true, ← (h.pending _ p hp).acked] at hsub
  rw [← Finset.eq_of_subset_of_card_le hsub hfull.le] at hx
  exact hother hx

theorem ackers_call (id : Uuid) (log : List BrokerEvent) (task : Task) :
    ackers id (log ++ callEvents task) = ackers id log := by
  rw [ackers_append]
  cases task <;> rfl

theorem pendingAccounted_call (h : n.PendingAccounted) {task : Task} (hcall : task.isCall = true) :
    (n.call task).PendingAccounted := by
  refine ⟨?_, fun id p hp => ?_⟩
  · intro t ht
    rcases List.mem_append.mp ht with hold | hnew
    · exact h.targets t hold
    · rw [List.mem_singleton.mp hnew]
      cases task with
      | resequence call targets => simp [Task.isCall] at hcall
      | track message targets => simp [Task.isCall] at hcall
      | _ => trivial
  · refine ⟨?_, (h.pending id p hp).below⟩
    rw [(h.pending id p hp).acked]
    exact (ackers_call id n.log task).symm

theorem pendingAccounted_run {as : List BrokerAction} (h : n.PendingAccounted)
    (has : Admissible step Enabled n as) : (run step n as).PendingAccounted :=
  invariant_run (I := PendingAccounted) (fun _ _ h hcall => pendingAccounted_call h hcall)
    (fun _ _ h => ⟨h.targets, h.pending⟩)
    (fun _ _ _ clock sendOk h htask _ => pendingAccounted_advance h htask clock sendOk) h has

theorem pendingAccounted_new (localNodeId : NodeId)
    (nodes : Std.ExtTreeMap NodeId NodeInfo compare) :
    (new localNodeId nodes).PendingAccounted :=
  ⟨fun _ ht => by simp [new] at ht, fun _ _ hp => by simp [new, NetworkBroker.new] at hp⟩

theorem onlyTargets_run {as : List BrokerAction} (h : n.OnlyTargets)
    (has : Admissible step FromTarget n as) : (run step n as).OnlyTargets :=
  invariant_run (I := OnlyTargets) (fun _ _ h _ => h) (fun _ _ h => h)
    (fun _ _ _ clock sendOk h htask hfrom => onlyTargets_advance h htask clock sendOk hfrom) h has

theorem enabled_ack {k : ℕ} {ack : MessageAck} (htask : n.tasks[k]? = some (.handleMessageAck ack))
    (clock : ClockReading) (sendOk : Bool) : n.Enabled (.advance k clock sendOk) := by
  intro task ht other _ _ lock hlock
  rw [Option.mem_def, htask, Option.some.injEq] at ht
  simp [← ht, Task.needs] at hlock

/-- Once a node that is no target has acknowledged a pending message, acknowledgements of targets
lead to an early removal. -/
theorem exists_incomplete (h : n.PendingAccounted) {id : Uuid} {p : PendingMessage}
    (hp : n.network.pendingMessages[id]? = some p) {x : NodeId} (hx : x ∈ p.ackedBy)
    (hother : x ∉ p.targetNodes) : ∃ as, Admissible step Enabled n as ∧
      ¬ Admissible step RemovesComplete n as := by
  induction hmissing : p.targetNodes.card - p.ackedBy.card generalizing n p with
  | zero =>
      have hbelow := (h.pending id p hp).below
      omega
  | succ missing ih =>
      obtain ⟨t, ht, hnew⟩ := Finset.not_subset.mp
        (fun hsub => absurd (Finset.card_le_card hsub) (not_le.mpr (h.pending id p hp).below))
      let ack : MessageAck := ⟨id, p.message.topic, t, 0⟩
      let called := n.call (.handleMessageAck ack)
      have hcalled : called.PendingAccounted := pendingAccounted_call h rfl
      have htask : called.tasks[n.tasks.length]? = some (.handleMessageAck ack) := by
        simp [called, call]
      have henabled := enabled_ack htask ⟨0, 0⟩ true
      by_cases hfull : (insert ack.nodeId p.ackedBy).card = p.targetNodes.card
      · refine ⟨[.call (.handleMessageAck ack), .advance n.tasks.length ⟨0, 0⟩ true],
          ⟨rfl, henabled, trivial⟩, fun hcomplete => ?_⟩
        exact not_removesComplete hcalled htask ⟨0, 0⟩ true hp hfull
          (Finset.mem_insert_of_mem hx) hother hcomplete.2.1
      · have hnext : (called.advance n.tasks.length ⟨0, 0⟩ true).network.pendingMessages[id]? =
            some { p with ackedBy := insert t p.ackedBy } := by
          rw [advance_eq htask]
          change (n.network.handleMessageAck ack).pendingMessages[id]? = _
          rw [n.network.handleMessageAck_of_some hp, if_neg hfull]
          simp [ack]
        obtain ⟨as, has, hbad⟩ := ih (pendingAccounted_advance hcalled htask ⟨0, 0⟩ true) hnext
          (Finset.mem_insert_of_mem hx) hother (by
            change p.targetNodes.card - (insert t p.ackedBy).card = missing
            rw [Finset.card_insert_of_notMem hnew]
            omega)
        exact ⟨.call (.handleMessageAck ack) :: .advance n.tasks.length ⟨0, 0⟩ true :: as,
          ⟨rfl, henabled, has⟩, fun hcomplete => hbad hcomplete.2.2⟩

/-- A step with an acknowledgement from elsewhere can be continued to an early removal. -/
theorem exists_incomplete_of_not_fromTarget (h : n.PendingAccounted) {a : BrokerAction}
    (henabled : n.Enabled a) (hfrom : ¬ n.FromTarget a) :
    ∃ bs, Admissible step Enabled n (a :: bs) ∧ ¬ Admissible step RemovesComplete n (a :: bs) := by
  cases a with
  | call task => exact absurd trivial hfrom
  | membership nodes => exact absurd trivial hfrom
  | advance k clock sendOk =>
      simp only [FromTarget, not_forall] at hfrom
      obtain ⟨ack, hack, p, hp, hother⟩ := hfrom
      have htask := acknowledgement_eq_some.mp hack
      have hmem := Finset.mem_insert_self ack.nodeId p.ackedBy
      by_cases hfull : (insert ack.nodeId p.ackedBy).card = p.targetNodes.card
      · exact ⟨[], ⟨henabled, trivial⟩, fun hcomplete =>
          not_removesComplete h htask clock sendOk hp hfull hmem hother hcomplete.1⟩
      · have hnext : (n.advance k clock sendOk).network.pendingMessages[ack.messageId]? =
            some { p with ackedBy := insert ack.nodeId p.ackedBy } := by
          rw [advance_eq htask]
          change (n.network.handleMessageAck ack).pendingMessages[ack.messageId]? = _
          rw [n.network.handleMessageAck_of_some hp, if_neg hfull]
          simp
        obtain ⟨bs, hbs, hbad⟩ := exists_incomplete
          (pendingAccounted_advance h htask clock sendOk) hnext hmem hother
        exact ⟨bs, ⟨henabled, hbs⟩, fun hcomplete => hbad hcomplete.2⟩

/-- In every run no message is pending that all targets have acknowledged. Where all
acknowledgements of pending messages come from targets, a message is only removed by one when all
targets have acknowledged it, and where one does not, the run can go on to an early removal. -/
theorem ack_tracking (localNodeId : NodeId) (nodes : Std.ExtTreeMap NodeId NodeInfo compare)
    (as : List BrokerAction) (has : Admissible step Enabled (new localNodeId nodes) as) :
    NoneOverdue (run step (new localNodeId nodes) as) ∧
      (Admissible step FromTarget (new localNodeId nodes) as →
        Admissible step RemovesComplete (new localNodeId nodes) as) ∧
      ∀ before a after, as = before ++ a :: after →
        ¬ FromTarget (run step (new localNodeId nodes) before) a →
        ∃ bs, Admissible step Enabled (new localNodeId nodes) (before ++ a :: bs) ∧
          ¬ Admissible step RemovesComplete (new localNodeId nodes) (before ++ a :: bs) := by
  have hnew := pendingAccounted_new localNodeId nodes
  refine ⟨(pendingAccounted_run hnew has).noneOverdue, fun hfrom => ?_, ?_⟩
  · refine admissible_iff_forall.mpr fun before a after heq => ?_
    subst heq
    obtain ⟨hbefore, -⟩ := admissible_append.mp has
    obtain ⟨hbeforeFrom, hafterFrom⟩ := admissible_append.mp hfrom
    exact removesComplete_of_onlyTargets (pendingAccounted_run hnew hbefore)
      (onlyTargets_run (fun _ _ hp => by simp [new, NetworkBroker.new] at hp) hbeforeFrom)
      hafterFrom.1
  · rintro before a after rfl hfrom
    obtain ⟨hbefore, hafter⟩ := admissible_append.mp has
    obtain ⟨bs, hbs, hbad⟩ := exists_incomplete_of_not_fromTarget
      (pendingAccounted_run hnew hbefore) hafter.1 hfrom
    exact ⟨bs, admissible_append.mpr ⟨hbefore, hbs⟩, fun hcomplete =>
      hbad (admissible_append.mp hcomplete).2⟩

/-- A message that has to be acknowledged. -/
def quote : PublishCall := ⟨"prices", some [1], .atLeastOnce, 7⟩

/-- Node 0 knows subscriptions of two nodes and publishes, up to the sending of the message. -/
def publishToTwo : List BrokerAction :=
  ([.call (.handleRemoteSubscription "prices" 1), .advance 0 ⟨0, 0⟩ true,
    .call (.handleRemoteSubscription "prices" 2), .advance 1 ⟨0, 0⟩ true,
    .call (.publish quote)] : List BrokerAction) ++
    List.replicate 7 (BrokerAction.advance 2 ⟨0, 0⟩ true)

/-- Both targets acknowledge, the first one twice. -/
def ackedByTargets : List BrokerAction :=
  publishToTwo ++ ([.call (.handleMessageAck ⟨7, "prices", 1, 0⟩), .advance 3 ⟨0, 0⟩ true,
    .call (.handleMessageAck ⟨7, "prices", 1, 0⟩), .advance 4 ⟨0, 0⟩ true,
    .call (.handleMessageAck ⟨7, "prices", 2, 0⟩), .advance 5 ⟨0, 0⟩ true] : List BrokerAction)

/-- A node that is no target acknowledges, and then one of the two targets. -/
def ackedByStranger : List BrokerAction :=
  publishToTwo ++ ([.call (.handleMessageAck ⟨7, "prices", 3, 0⟩), .advance 3 ⟨0, 0⟩ true,
    .call (.handleMessageAck ⟨7, "prices", 1, 0⟩), .advance 4 ⟨0, 0⟩ true] : List BrokerAction)

theorem ack_tracking_targets :
    Admissible step Enabled (new 0 ∅) ackedByTargets ∧
      Admissible step RemovesComplete (new 0 ∅) ackedByTargets := by
  have henabled : Admissible step Enabled (new 0 ∅) ackedByTargets := by decide +kernel
  exact ⟨henabled, (ack_tracking 0 ∅ ackedByTargets henabled).2.1 (by decide +kernel)⟩

theorem not_ack_tracking : ¬ ∀ (localNodeId : NodeId)
    (nodes : Std.ExtTreeMap NodeId NodeInfo compare) (as : List BrokerAction),
    Admissible step Enabled (new localNodeId nodes) as →
      Admissible step RemovesComplete (new localNodeId nodes) as := by
  intro h
  have hcomplete := admissible_iff_forall.mp (h 0 ∅ ackedByStranger (by decide +kernel))
    (publishToTwo ++ [.call (.handleMessageAck ⟨7, "prices", 3, 0⟩), .advance 3 ⟨0, 0⟩ true,
      .call (.handleMessageAck ⟨7, "prices", 1, 0⟩)]) (.advance 4 ⟨0, 0⟩ true) [] rfl
  have hsub := hcomplete ⟨7, "prices", 1, 0⟩ 7 _ rfl rfl rfl
  revert hsub
  decide +kernel

end BrokerNode

end ActixPura
