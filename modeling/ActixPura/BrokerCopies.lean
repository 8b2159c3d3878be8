import ActixPura.Broker

/-!
# Copies of messages

A node holds copies of a message in its tasks, in the table of pending messages and in what it has
already handed on or sent. A critical section makes a new message in two places only: where a call
of `publish` takes its number, and where it reads the counter again before it turns to other nodes.
All other copies come from these, or from a message that was received.

`mass` weighs the tasks of a node, so that what is still to be done can be counted against what was
done.
-/

namespace ActixPura

/-- The message is one that the call published. -/
def PublishCall.Made (call : PublishCall) (message : BrokerMessage) : Prop :=
  message.topic = call.topic ∧ call.payload = some message.payload ∧ message.id = call.id ∧
    message.deliveryGuarantee = call.guarantee

def Task.publication : Task → Option PublishCall
  | .publish call => some call
  | _ => none

def Task.messages : Task → List BrokerMessage
  | .publishLocally _ message => [message]
  | .handLocally _ message _ => [message]
  | .track message _ => [message]
  | .distribute message _ => [message]
  | .handleBrokerMessage message => [message]
  | .handleRemoteMessage message => [message]
  | .deliverLocal message => [message]
  | .handRemote message _ => [message]
  | .updateRetries plan => plan.retry.map Prod.fst
  | .retransmit plan => plan.retry.map Prod.fst
  | _ => []

/-- A call that brings a message with it is one of the handler of messages. -/
theorem Task.received_of_isCall {task : Task} (hcall : task.isCall = true) {message : BrokerMessage}
    (h : message ∈ task.messages) : task = .handleBrokerMessage message := by
  cases task with
  | handleBrokerMessage message' => rw [List.mem_singleton.mp h]
  | _ => first | exact Bool.noConfusion hcall | simp [messages] at h

def BrokerEvent.messages : BrokerEvent → List BrokerMessage
  | .acknowledged message _ => [message]
  | .handed _ message => [message]
  | .sent _ (.brokerMessage message) => [message]
  | .resent _ message => [message]
  | _ => []

namespace NetworkBroker

variable {b : NetworkBroker} {k : ℕ} {clock : ClockReading} {sendOk : Bool} {task : Task}
  {message : BrokerMessage}

def Pending (b : NetworkBroker) (message : BrokerMessage) : Prop :=
  ∃ (id : Uuid) (p : PendingMessage), b.pendingMessages[id]? = some p ∧ p.message = message

/-- The message is made by the next critical section of the task. -/
def Makes (b : NetworkBroker) (clock : ClockReading) (task : Task) (message : BrokerMessage) :
    Prop :=
  (∃ call payload, task = .publish call ∧ call.payload = some payload ∧
      message = b.brokerMessage call payload (b.broker.nextSequence call.topic) clock.seconds) ∨
    ∃ call targets payload, task = .resequence call targets ∧ call.payload = some payload ∧
      message = b.brokerMessage call payload (b.broker.sequenceCounters.getD call.topic 0)
        clock.seconds

theorem localNodeId_advance (b : NetworkBroker) (k : ℕ) (clock : ClockReading) (sendOk : Bool)
    (task : Task) :
    (b.advance k clock sendOk task).1.broker.localNodeId = b.broker.localNodeId := by
  rw [advance_network]
  cases task with
  | handleRemoteMessage message =>
      change ((b.broker.deduplicate message clock.instant).getD b.broker).localNodeId = _
      unfold MessageBroker.deduplicate
      split_ifs <;> rfl
  | _ => rfl

theorem pending_of_mem_planRetries {now : ℕ}
    (h : message ∈ (b.planRetries now).retry.map Prod.fst) : b.Pending message := by
  simp only [planRetries, List.map_map, List.mem_map, List.mem_filter] at h
  obtain ⟨⟨id, p⟩, ⟨hmem, -⟩, rfl⟩ := h
  exact ⟨id, p, Std.ExtTreeMap.mem_toList_iff_getElem?_eq_some.mp hmem, rfl⟩

theorem messages_next {task' : Task} {events : List BrokerEvent}
    (hnext : b.Next clock task task' events) (h : message ∈ task'.messages) :
    message ∈ task.messages ∨ b.Pending message ∨ b.Makes clock task message := by
  cases hnext with
  | publish hp =>
      obtain rfl := List.mem_singleton.mp h
      exact Or.inr (Or.inr (Or.inl ⟨_, _, rfl, hp, rfl⟩))
  | resequence hp =>
      obtain rfl := List.mem_singleton.mp h
      exact Or.inr (Or.inr (Or.inr ⟨_, _, _, rfl, hp, rfl⟩))
  | processPendingMessages => exact Or.inr (Or.inl (pending_of_mem_planRetries h))
  | publishLocally => exact Or.inl h
  | handLocally => exact Or.inl h
  | track => exact Or.inl h
  | unacknowledged _ => exact Or.inl h
  | acknowledged => exact Or.inl h
  | handleRemoteMessage _ => exact Or.inl h
  | deliverLocal => exact Or.inl h
  | handRemote => exact Or.inl h
  | updateRetries => exact Or.inl h
  | _ => simp [Task.messages] at h

theorem messages_event {e : BrokerEvent} (he : e ∈ (b.advance k clock sendOk task).2.2)
    (h : message ∈ e.messages) : message ∈ task.messages := by
  have horigin := origin_of_mem he
  cases e with
  | acknowledged message' subscribers =>
      obtain rfl := horigin.1
      exact h
  | handed subscriber message' =>
      obtain ⟨remaining, rfl | ⟨call, rfl⟩⟩ := horigin
      · exact h
      · exact h
  | sent targets message' =>
      cases message' with
      | brokerMessage message' =>
          obtain rfl : task = .distribute message' targets := horigin
          exact h
      | _ => simp [BrokerEvent.messages] at h
  | resent targets message' =>
      obtain ⟨plan, r, rfl, hr, rfl, -⟩ := horigin
      rw [List.mem_singleton.mp h]
      exact List.mem_map_of_mem hr
  | _ => simp [BrokerEvent.messages] at h

theorem pending_of_keeps {pending pending' : Std.ExtTreeMap Uuid PendingMessage compare}
    (h : Keeps pending pending') {id : Uuid} {p' : PendingMessage} (hp' : pending'[id]? = some p') :
    ∃ p, pending[id]? = some p ∧ p.message = p'.message := by
  obtain ⟨p, hp, hmessage, -⟩ := h id p' hp'
  exact ⟨p, hp, hmessage.symm⟩

theorem pending_track {message' : BrokerMessage} {targets : Finset NodeId} {now : ℕ}
    (h : (b.track message' targets now).Pending message) :
    b.Pending message ∨ message = message' := by
  obtain ⟨id, p, hp, rfl⟩ := h
  simp only [track] at hp
  split_ifs at hp
  · exact Or.inl ⟨id, p, hp, rfl⟩
  · rw [Std.ExtTreeMap.getElem?_insert] at hp
    split_ifs at hp
    · rw [← Option.some.inj hp]
      exact Or.inr rfl
    · exact Or.inl ⟨id, p, hp, rfl⟩

theorem pending_handleMessageAck {ack : MessageAck} (h : (b.handleMessageAck ack).Pending message) :
    b.Pending message := by
  obtain ⟨id, p, hp, rfl⟩ := h
  unfold handleMessageAck at hp
  cases hold : b.pendingMessages[ack.messageId]? with
  | none =>
      simp only [hold] at hp
      exact ⟨id, p, hp, rfl⟩
  | some msg =>
      simp only [hold] at hp
      split_ifs at hp
      · rw [Std.ExtTreeMap.getElem?_erase] at hp
        split_ifs at hp
        exact ⟨id, p, hp, rfl⟩
      · rw [Std.ExtTreeMap.getElem?_insert] at hp
        split_ifs at hp
        · rw [← Option.some.inj hp]
          exact ⟨ack.messageId, msg, hold, rfl⟩
        · exact ⟨id, p, hp, rfl⟩

theorem pending_advance (h : (b.advance k clock sendOk task).1.Pending message) :
    b.Pending message ∨ message ∈ task.messages := by
  rw [advance_network] at h
  cases task with
  | track message' targets =>
      rcases pending_track h with hold | rfl
      · exact Or.inl hold
      · exact Or.inr (List.mem_singleton_self _)
  | handleMessageAck ack => exact Or.inl (pending_handleMessageAck h)
  | updateRetries plan =>
      obtain ⟨id, p, hp, rfl⟩ := h
      exact Or.inl ⟨id, pending_of_keeps (b.keeps_updateRetries plan) hp⟩
  | removeExpired plan =>
      obtain ⟨id, p, hp, rfl⟩ := h
      exact Or.inl ⟨id, pending_of_keeps (b.keeps_removeExpired plan) hp⟩
  | _ => exact Or.inl h

end NetworkBroker

namespace BrokerNode

variable {n : BrokerNode} {message : BrokerMessage}

def Holds (n : BrokerNode) (message : BrokerMessage) : Prop :=
  (∃ task ∈ n.tasks, message ∈ task.messages) ∨ n.network.Pending message ∨
    ∃ e ∈ n.log, message ∈ e.messages

theorem not_holds_new (localNodeId : NodeId) (nodes : Std.ExtTreeMap NodeId NodeInfo compare) :
    ¬ (new localNodeId nodes).Holds message := by
  rintro (⟨task, htask, -⟩ | ⟨id, p, hp, -⟩ | ⟨e, he, -⟩)
  · simp [new] at htask
  · simp [new, NetworkBroker.new] at hp
  · simp [new] at he

theorem holds_call {task : Task} (h : (n.call task).Holds message) :
    n.Holds message ∨ message ∈ task.messages := by
  rcases h with ⟨t, ht, hmem⟩ | hpending | ⟨e, he, hmem⟩
  · rcases List.mem_append.mp ht with hold | hnew
    · exact Or.inl (Or.inl ⟨t, hold, hmem⟩)
    · rw [List.mem_singleton.mp hnew] at hmem
      exact Or.inr hmem
  · exact Or.inl (Or.inr (Or.inl hpending))
  · rcases List.mem_append.mp he with hold | hnew
    · exact Or.inl (Or.inr (Or.inr ⟨e, hold, hmem⟩))
    · obtain ⟨call, -, rfl⟩ := mem_callEvents hnew
      simp [BrokerEvent.messages] at hmem

/-- Only a call of `publish` makes a message. -/
theorem holds_advance {k : ℕ} {task : Task} (htask : n.tasks[k]? = some task)
    {clock : ClockReading} {sendOk : Bool} (h : (n.advance k clock sendOk).Holds message) :
    n.Holds message ∨ n.network.Makes clock task message := by
  have hthis (hmem : message ∈ task.messages) : n.Holds message :=
    Or.inl ⟨task, List.mem_of_getElem? htask, hmem⟩
  rw [advance_eq htask] at h
  rcases h with ⟨t, ht, hmem⟩ | hpending | ⟨e, he, hmem⟩
  · rcases List.mem_or_eq_of_mem_set ht with hold | rfl
    · exact Or.inl (Or.inl ⟨t, hold, hmem⟩)
    · have hnext := n.network.next_advance k clock sendOk task
      rcases NetworkBroker.messages_next hnext hmem with hold | hpending | hmade
      · exact Or.inl (hthis hold)
      · exact Or.inl (Or.inr (Or.inl hpending))
      · exact Or.inr hmade
  · rcases NetworkBroker.pending_advance hpending with hold | hmem
    · exact Or.inl (Or.inr (Or.inl hold))
    · exact Or.inl (hthis hmem)
  · rcases List.mem_append.mp he with hold | hnew
    · exact Or.inl (Or.inr (Or.inr ⟨e, hold, hmem⟩))
    · exact Or.inl (hthis (NetworkBroker.messages_event hnew hmem))

theorem localNodeId_step (n : BrokerNode) (a : BrokerAction) :
    (n.step a).network.broker.localNodeId = n.network.broker.localNodeId := by
  cases a with
  | call task => rfl
  | membership nodes => rfl
  | advance k clock sendOk =>
      change (n.advance k clock sendOk).network.broker.localNodeId = _
      cases htask : n.tasks[k]? with
      | none => rw [advance_of_none htask]
      | some task =>
          rw [advance_eq htask]
          exact n.network.localNodeId_advance k clock sendOk task

theorem localNodeId_run (n : BrokerNode) (as : List BrokerAction) :
    (Runs.run step n as).network.broker.localNodeId = n.network.broker.localNodeId :=
  Runs.invariant_run_of_mem
    (I := fun n' : BrokerNode =>
      n'.network.broker.localNodeId = n.network.broker.localNodeId)
    (fun n' a _ h => (localNodeId_step n' a).trans h) rfl

def mass (w : Task → ℕ) (n : BrokerNode) : ℕ := (n.tasks.map w).sum

theorem mass_call (w : Task → ℕ) (task : Task) : (n.call task).mass w = n.mass w + w task := by
  simp [mass, call]

theorem sum_map_set {α : Type*} (w : α → ℕ) {xs : List α} {k : ℕ} {x : α}
    (h : xs[k]? = some x) (x' : α) :
    ((xs.set k x').map w).sum + w x = (xs.map w).sum + w x' := by
  induction xs generalizing k with
  | nil => simp at h
  | cons y xs ih =>
      cases k with
      | zero =>
          obtain rfl : y = x := by simpa using h
          simp only [List.set_cons_zero, List.map_cons, List.sum_cons]
          omega
      | succ k =>
          have hrest := ih (by simpa using h)
          simp only [List.set_cons_succ, List.map_cons, List.sum_cons]
          omega

/-- A task that goes on changes the mass by its own weight. -/
theorem mass_advance (w : Task → ℕ) {k : ℕ} {task : Task} (htask : n.tasks[k]? = some task)
    (clock : ClockReading) (sendOk : Bool) :
    (n.advance k clock sendOk).mass w + w task =
      n.mass w + w (n.network.advance k clock sendOk task).2.1 := by
  rw [advance_eq htask]
  exact sum_map_set w htask _

end BrokerNode

end ActixPura
