import ActixPura.BrokerCluster

/-!
# Acknowledgement before delivery

`handle_broker_message` sends the acknowledgement first and hands the message to the subscribers
afterwards. When the node fails in between, or another critical section runs before the delivery,
the message counts as delivered at its source, which drops it, and no subscriber has it.

An acknowledgement is true when it is sent exactly where every subscriber of the topic already has
the message from an earlier copy. For the first copy this means that there is no subscriber.
-/

namespace ActixPura

open Runs

/-- What is about to be handed on was published here, or acknowledged if it has to be. -/
def Task.Acknowledged (localNodeId : NodeId) (log : List BrokerEvent) : Task → Prop
  | .publishLocally _ message => message.sourceNode = localNodeId
  | .handLocally _ message _ => message.sourceNode = localNodeId
  | .handleRemoteMessage message => message.deliveryGuarantee ≠ .atMostOnce →
      ∃ subscribers, .acknowledged message subscribers ∈ log
  | .deliverLocal message => message.deliveryGuarantee ≠ .atMostOnce →
      ∃ subscribers, .acknowledged message subscribers ∈ log
  | .handRemote message _ => message.deliveryGuarantee ≠ .atMostOnce →
      ∃ subscribers, .acknowledged message subscribers ∈ log
  | _ => True

theorem Task.Acknowledged.append {localNodeId : NodeId} {log : List BrokerEvent} {task : Task}
    (h : task.Acknowledged localNodeId log) (events : List BrokerEvent) :
    task.Acknowledged localNodeId (log ++ events) := by
  have hacked {message : BrokerMessage} (h : message.deliveryGuarantee ≠ .atMostOnce →
      ∃ subscribers, .acknowledged message subscribers ∈ log)
      (hmost : message.deliveryGuarantee ≠ .atMostOnce) :
      ∃ subscribers, .acknowledged message subscribers ∈ log ++ events := by
    obtain ⟨subscribers, hmem⟩ := h hmost
    exact ⟨subscribers, List.mem_append_left _ hmem⟩
  cases task with
  | publishLocally call message => exact h
  | handLocally call message remaining => exact h
  | handleRemoteMessage message => exact hacked h
  | deliverLocal message => exact hacked h
  | handRemote message remaining => exact hacked h
  | _ => trivial

theorem acknowledged_next {b : NetworkBroker} {clock : ClockReading} {task task' : Task}
    {events log : List BrokerEvent} (hnext : b.Next clock task task' events)
    (h : task.Acknowledged b.broker.localNodeId log) :
    task'.Acknowledged b.broker.localNodeId (log ++ events) := by
  cases hnext with
  | publish _ => rfl
  | publishLocally => exact h
  | handLocally => exact h
  | unacknowledged hmost => exact fun hnot => absurd hmost hnot
  | acknowledged => exact fun _ => ⟨_, List.mem_append_right _ List.mem_cons_self⟩
  | handleRemoteMessage _ => exact Task.Acknowledged.append h _
  | deliverLocal => exact Task.Acknowledged.append h _
  | handRemote => exact Task.Acknowledged.append h _
  | _ => trivial

namespace BrokerNode

variable {n : BrokerNode}

/-- The message that a task is about to acknowledge. -/
def acknowledging (n : BrokerNode) (k : ℕ) : Option BrokerMessage :=
  match n.tasks[k]? with
  | some (.handleBrokerMessage message) =>
    if message.deliveryGuarantee = .atMostOnce then none else some message
  | _ => none

/-- A message that was acknowledged has been handed to all subscribers of that moment. -/
def AckedDelivered (n : BrokerNode) : Prop :=
  ∀ message subscribers, .acknowledged message subscribers ∈ n.log →
    ∀ subscriber ∈ subscribers, .handed subscriber message ∈ n.log

/-- All subscribers have an earlier copy of a message that is about to be acknowledged. -/
def Covered (n : BrokerNode) : BrokerAction → Prop
  | .advance k _ sendOk => sendOk = true → ∀ message ∈ n.acknowledging k,
      ∀ subscriber ∈ n.network.broker.subscribersOf message.topic,
        .handed subscriber message ∈ n.log
  | _ => True

theorem acknowledging_eq_some {k : ℕ} {message : BrokerMessage} :
    n.acknowledging k = some message ↔ n.tasks[k]? = some (.handleBrokerMessage message) ∧
      message.deliveryGuarantee ≠ .atMostOnce := by
  unfold acknowledging
  split
  · rename_i message' htask
    rw [htask]
    by_cases hmost : message'.deliveryGuarantee = .atMostOnce
    · simp only [hmost, if_true, Option.some.injEq, Task.handleBrokerMessage.injEq]
      exact ⟨fun h => by simp at h, fun ⟨h, hnot⟩ => absurd (h ▸ hmost) hnot⟩
    · simp only [hmost, if_false, Option.some.injEq, Task.handleBrokerMessage.injEq]
      exact ⟨fun h => ⟨h, h ▸ hmost⟩, fun h => h.1⟩
  · rename_i hnot
    exact ⟨fun h => by simp at h, fun h => absurd h.1 (hnot message)⟩

theorem acknowledge_events {b : NetworkBroker} {message : BrokerMessage}
    (h : message.deliveryGuarantee ≠ .atMostOnce) (k : ℕ) (clock : ClockReading) :
    (b.advance k clock true (.handleBrokerMessage message)).2.2 =
      [.acknowledged message (b.broker.subscribersOf message.topic),
        .sent {message.sourceNode} (.brokerAck
          ⟨message.id, message.topic, b.broker.localNodeId, clock.seconds⟩)] := by
  simp only [NetworkBroker.advance, if_neg h, if_true]

theorem ackedDelivered_call (h : n.AckedDelivered) (task : Task) :
    (n.call task).AckedDelivered := by
  intro message subscribers hmem subscriber hsub
  rcases List.mem_append.mp hmem with hold | hnew
  · exact List.mem_append_left _ (h message subscribers hold subscriber hsub)
  · obtain ⟨call, -, heq⟩ := mem_callEvents hnew
    simp at heq

theorem ackedDelivered_of_covered (h : n.AckedDelivered) {k : ℕ} {task : Task}
    (htask : n.tasks[k]? = some task) {clock : ClockReading} {sendOk : Bool}
    (hcovered : n.Covered (.advance k clock sendOk)) :
    (n.advance k clock sendOk).AckedDelivered := by
  rw [advance_eq htask]
  intro message subscribers hmem subscriber hsub
  refine List.mem_append_left _ ?_
  rcases List.mem_append.mp hmem with hold | hnew
  · exact h message subscribers hold subscriber hsub
  · obtain ⟨rfl, hmost, rfl⟩ := NetworkBroker.origin_of_mem hnew
    have hsendOk : sendOk = true := by
      by_contra hnot
      simp [NetworkBroker.advance, hmost, hnot] at hnew
    exact hcovered hsendOk message (acknowledging_eq_some.mpr ⟨htask, hmost⟩) subscriber hsub

theorem covered_of_ackedDelivered {k : ℕ} {clock : ClockReading} {sendOk : Bool}
    (h : (n.advance k clock sendOk).AckedDelivered) : n.Covered (.advance k clock sendOk) := by
  rintro rfl message hmessage subscriber hsub
  obtain ⟨htask, hmost⟩ := acknowledging_eq_some.mp hmessage
  rw [advance_eq htask] at h
  rcases List.mem_append.mp (h message _ (List.mem_append_right _ (by
    rw [acknowledge_events hmost]
    exact List.mem_cons_self)) subscriber hsub) with hold | hnew
  · exact hold
  · rw [acknowledge_events hmost] at hnew
    simp at hnew

/-- A step keeps acknowledgements true exactly when it acknowledges no message that a subscriber
still lacks. -/
theorem covered_iff_ackedDelivered (h : n.AckedDelivered) (a : BrokerAction) :
    n.Covered a ↔ (n.step a).AckedDelivered := by
  cases a with
  | call task => exact ⟨fun _ => ackedDelivered_call h task, fun _ => trivial⟩
  | membership nodes => exact ⟨fun _ => h, fun _ => trivial⟩
  | advance k clock sendOk =>
      refine ⟨fun hcovered => ?_, fun hnext => covered_of_ackedDelivered hnext⟩
      cases htask : n.tasks[k]? with
      | none =>
          change (n.advance k clock sendOk).AckedDelivered
          rw [advance_of_none htask]
          exact h
      | some task => exact ackedDelivered_of_covered h htask hcovered

def isHanded (subscriber : Subscriber) (message : BrokerMessage) : BrokerEvent → Bool
  | .handed subscriber' message' => subscriber' = subscriber ∧ message' = message
  | _ => false

theorem any_isHanded {subscriber : Subscriber} {message : BrokerMessage} {log : List BrokerEvent} :
    log.any (isHanded subscriber message) = true ↔ .handed subscriber message ∈ log := by
  rw [List.any_eq_true]
  constructor
  · rintro ⟨e, he, hhanded⟩
    cases e with
    | handed subscriber' message' =>
        simp only [isHanded, decide_eq_true_eq] at hhanded
        rwa [← hhanded.1, ← hhanded.2]
    | _ => simp [isHanded] at hhanded
  · intro he
    exact ⟨_, he, by simp [isHanded]⟩

instance decidableHanded (subscriber : Subscriber) (message : BrokerMessage)
    (log : List BrokerEvent) : Decidable (BrokerEvent.handed subscriber message ∈ log) :=
  decidable_of_iff _ any_isHanded

instance decidableCovered (n : BrokerNode) (a : BrokerAction) : Decidable (n.Covered a) :=
  match a with
  | .call _ => isTrue trivial
  | .membership _ => isTrue trivial
  | .advance k _ sendOk => inferInstanceAs (Decidable (sendOk = true →
      ∀ message ∈ n.acknowledging k,
      ∀ subscriber ∈ n.network.broker.subscribersOf message.topic,
        .handed subscriber message ∈ n.log))

/-! ## The first acknowledgement of a message -/

/-- What comes from another node and has to be acknowledged is handed on after that. -/
structure AckedFirst (n : BrokerNode) : Prop where
  tasks : ∀ task ∈ n.tasks, task.Acknowledged n.network.broker.localNodeId n.log
  handed : ∀ subscriber message, .handed subscriber message ∈ n.log →
    message.deliveryGuarantee ≠ .atMostOnce →
    message.sourceNode ≠ n.network.broker.localNodeId →
    ∃ subscribers, .acknowledged message subscribers ∈ n.log

theorem ackedFirst_call (h : n.AckedFirst) {task : Task} (hcall : task.isCall = true) :
    (n.call task).AckedFirst := by
  refine ⟨fun t ht => ?_, fun subscriber message hmem hmost hsource => ?_⟩
  · rcases List.mem_append.mp ht with hold | hnew
    · exact (h.tasks t hold).append _
    · rw [List.mem_singleton.mp hnew]
      cases task with
      | _ => trivial
  · rcases List.mem_append.mp hmem with hold | hnew
    · obtain ⟨subscribers, hacked⟩ := h.handed subscriber message hold hmost hsource
      exact ⟨subscribers, List.mem_append_left _ hacked⟩
    · obtain ⟨call, -, heq⟩ := mem_callEvents hnew
      simp at heq

theorem ackedFirst_advance (h : n.AckedFirst) {k : ℕ} {task : Task}
    (htask : n.tasks[k]? = some task) (clock : ClockReading) (sendOk : Bool) :
    (n.advance k clock sendOk).AckedFirst := by
  have hthis := h.tasks task (List.mem_of_getElem? htask)
  have hnext := acknowledged_next (n.network.next_advance k clock sendOk task) hthis
  have hlocal := NetworkBroker.localNodeId_advance n.network k clock sendOk task
  rw [advance_eq htask]
  refine ⟨?_, fun subscriber message hmem hmost hsource => ?_⟩
  · simp only [hlocal]
    exact forall_tasks_set (fun t ht => (h.tasks t ht).append _) k hnext
  · simp only [hlocal] at hsource
    rcases List.mem_append.mp hmem with hold | hnew
    · obtain ⟨subscribers, hacked⟩ := h.handed subscriber message hold hmost hsource
      exact ⟨subscribers, List.mem_append_left _ hacked⟩
    · obtain ⟨remaining, rfl | ⟨call, rfl⟩⟩ := NetworkBroker.origin_of_mem hnew
      · obtain ⟨subscribers, hacked⟩ := hthis hmost
        exact ⟨subscribers, List.mem_append_left _ hacked⟩
      · exact absurd hthis hsource

theorem ackedFirst_run {localNodeId : NodeId} {nodes : Std.ExtTreeMap NodeId NodeInfo compare}
    {as : List BrokerAction} (has : Admissible step Enabled (new localNodeId nodes) as) :
    (run step (new localNodeId nodes) as).AckedFirst :=
  invariant_run (I := AckedFirst) (fun _ _ h hcall => ackedFirst_call h hcall)
    (fun _ _ h => ⟨h.tasks, h.handed⟩)
    (fun _ _ _ clock sendOk h htask _ => ackedFirst_advance h htask clock sendOk)
    ⟨fun _ ht => by simp [new] at ht, fun _ _ hm => by simp [new] at hm⟩ has

/-- The first copy of a message is only covered where nobody subscribes. -/
theorem AckedFirst.covered_iff (h : n.AckedFirst) {k : ℕ} {message : BrokerMessage}
    (hmessage : n.acknowledging k = some message)
    (hsource : message.sourceNode ≠ n.network.broker.localNodeId)
    (hfirst : ∀ subscribers, .acknowledged message subscribers ∉ n.log) (clock : ClockReading) :
    n.Covered (.advance k clock true) ↔ n.network.broker.subscribersOf message.topic = [] := by
  obtain ⟨-, hmost⟩ := acknowledging_eq_some.mp hmessage
  constructor
  · intro hcovered
    refine List.eq_nil_iff_forall_not_mem.mpr fun subscriber hsub => ?_
    obtain ⟨subscribers, hacked⟩ := h.handed subscriber message
      (hcovered rfl message hmessage subscriber hsub) hmost hsource
    exact hfirst subscribers hacked
  · intro hempty _ message' hmessage' subscriber hsub
    obtain rfl : message = message' := Option.some.inj (hmessage.symm.trans hmessage')
    simp [hempty] at hsub

end BrokerNode

namespace BrokerCluster

variable {c : BrokerCluster}

def AckedDelivered (c : BrokerCluster) : Prop := ∀ i, (c.nodes i).AckedDelivered

def Covered (c : BrokerCluster) : ClusterAction → Prop
  | .node i a => (c.nodes i).Covered a
  | .fail _ => True

theorem covered_iff_ackedDelivered (h : c.AckedDelivered) (a : ClusterAction) :
    c.Covered a ↔ (c.step a).AckedDelivered := by
  cases a with
  | fail i => exact ⟨fun _ => h, fun _ => trivial⟩
  | node i a =>
      rw [Covered, BrokerNode.covered_iff_ackedDelivered (h i)]
      constructor
      · intro hnode j
        by_cases hj : j = i
        · subst hj
          rw [step_node]
          exact hnode
        · rw [step_node_of_ne hj]
          exact h j
      · intro hnext
        have hnode := hnext i
        rwa [step_node] at hnode

instance decidableCovered (c : BrokerCluster) (a : ClusterAction) : Decidable (c.Covered a) :=
  match a with
  | .fail _ => isTrue trivial
  | .node i a => inferInstanceAs (Decidable ((c.nodes i).Covered a))

/-- In a run all acknowledgements that were sent are true, in every state, exactly when every
acknowledged message was handed to the subscribers by an earlier copy. The first copy that a node
acknowledges is covered only where nobody subscribes. -/
theorem acked_delivery (membership : NodeId → Std.ExtTreeMap NodeId NodeInfo compare)
    (as : List ClusterAction) (has : Admissible step Enabled (new membership) as) :
    ((∀ before after, as = before ++ after → (run step (new membership) before).AckedDelivered) ↔
      Admissible step Covered (new membership) as) ∧
      ∀ before i k clock after message,
        as = before ++ .node i (.advance k clock true) :: after →
        ((run step (new membership) before).nodes i).acknowledging k = some message →
        message.sourceNode ≠ i →
        (∀ subscribers, .acknowledged message subscribers ∉
          ((run step (new membership) before).nodes i).log) →
        ((run step (new membership) before).Covered (.node i (.advance k clock true)) ↔
          ((run step (new membership) before).nodes i).network.broker.subscribersOf
            message.topic = []) := by
  have hnew : (new membership).AckedDelivered := fun i _ _ hmem => by
    simp [new, BrokerNode.new] at hmem
  have hiff (c : BrokerCluster) (a : ClusterAction) (h : c.AckedDelivered) :=
    covered_iff_ackedDelivered h a
  refine ⟨(admissible_iff_forall_run hiff hnew).symm, ?_⟩
  rintro before i k clock after message rfl hmessage hsource hfirst
  have hbefore := (admissible_append.mp has).1
  have hnode : ((run step (new membership) before).nodes i).AckedFirst := by
    rw [nodes_run]
    exact BrokerNode.ackedFirst_run (admissible_node (fun c a h => h.2.1) hbefore)
  refine hnode.covered_iff hmessage ?_ hfirst clock
  rw [nodes_run, BrokerNode.localNodeId_run]
  exact hsource

def order : PublishCall := ⟨"orders", some [1], .atLeastOnce, 7⟩

/-- Node 0 publishes for node 1. -/
def sentToOne : List ClusterAction :=
  ([.node 0 (.call (.handleRemoteSubscription "orders" 1)), .node 0 (.advance 0 ⟨0, 0⟩ true),
    .node 0 (.call (.publish order))] : List ClusterAction) ++
    List.replicate 7 (ClusterAction.node 0 (.advance 1 ⟨0, 0⟩ true))

def orderMessage : BrokerMessage := ⟨"orders", [1], 7, 0, 0, 1, .atLeastOnce⟩

def subscribeAtOne (k : ℕ) : List ClusterAction :=
  [.node 1 (.call (.subscribe "orders" ⟨.atLeastOnce, 100, false, none⟩ false)),
    .node 1 (.advance k ⟨0, 0⟩ true)]

/-- Node 1 acknowledges a first copy when nobody subscribes and hands it to a subscriber that comes
later. Then it acknowledges a second copy. -/
def lateSubscriber : List ClusterAction :=
  sentToOne ++ ([.node 1 (.call (.handleBrokerMessage orderMessage)),
    .node 1 (.advance 0 ⟨0, 0⟩ true)] : List ClusterAction) ++ subscribeAtOne 1 ++
    List.replicate 4 (ClusterAction.node 1 (.advance 0 ⟨0, 0⟩ true)) ++
    ([.node 1 (.call (.handleBrokerMessage orderMessage)), .node 1 (.advance 2 ⟨0, 0⟩ true)] :
      List ClusterAction)

/-- Node 1 acknowledges the message and fails. Node 0 handles the acknowledgement. -/
def lostAfterAck : List ClusterAction :=
  subscribeAtOne 0 ++ sentToOne ++ ([.node 1 (.call (.handleBrokerMessage orderMessage)),
    .node 1 (.advance 1 ⟨0, 0⟩ true), .fail 1,
    .node 0 (.call (.handleMessageAck ⟨7, "orders", 1, 0⟩)), .node 0 (.advance 2 ⟨0, 0⟩ true)] :
      List ClusterAction)

theorem acked_delivery_lateSubscriber :
    (run step (new fun _ => ∅) lateSubscriber).AckedDelivered :=
  (acked_delivery (fun _ => ∅) lateSubscriber (by decide +kernel)).1.mpr (by decide +kernel)
    lateSubscriber [] (List.append_nil _).symm

/-- The subscriber of node 1 never gets the message, and node 0 has dropped it. -/
theorem not_acked_delivery : ¬ ∀ (membership : NodeId → Std.ExtTreeMap NodeId NodeInfo compare)
    (as : List ClusterAction), Admissible step Enabled (new membership) as →
      (run step (new membership) as).AckedDelivered := by
  intro h
  have hlog : ((run step (new fun _ => ∅) lostAfterAck).nodes 1).log =
      [.acknowledged orderMessage [0], .sent {0} (.brokerAck ⟨7, "orders", 1, 0⟩)] := rfl
  have hhanded := h (fun _ => ∅) lostAfterAck (by decide +kernel) 1 orderMessage [0]
    (by simp [hlog]) 0 (List.mem_singleton_self 0)
  simp [hlog] at hhanded

end BrokerCluster

end ActixPura
