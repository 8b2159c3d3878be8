import ActixPura.BrokerCluster

/-!
# Messages that are delivered exactly once

Copies of a message are made by the network, by the retries of its source and by concurrent calls of
the handler. A node enters the identifier of such a message into its cache before it hands the
message on, and it tests and enters under one lock. So the copy that finds no entry is the only one
that is delivered, and it goes once through the list of subscribers.

The proof counts for one subscriber: the times it was handed the message, the times it will be
handed it by the tasks that are under way, and one more as long as the identifier is not in the
cache. This number never grows.
-/

namespace ActixPura

open Runs

section Copies

variable (source : NodeId) (call : PublishCall)

/-- A copy of the message that the call published at the source. -/
def Genuine (message : BrokerMessage) : Prop :=
  call.Made message ∧ message.sourceNode = source

/-- A publication with the identifier of the call is the call at the source. -/
def SameCall (i : NodeId) (call' : PublishCall) : Prop :=
  call'.id = call.id → i = source ∧ call' = call

def Task.Originates (i : NodeId) : Task → Prop
  | .publish call' => SameCall source call i call'
  | .publishLocally call' message => message.id = call'.id ∧ SameCall source call i call'
  | .handLocally call' message _ => message.id = call'.id ∧ SameCall source call i call'
  | .findTargets call' => SameCall source call i call'
  | .resequence call' _ => SameCall source call i call'
  | _ => True

end Copies

section Tasks

variable {source : NodeId} {call : PublishCall} {b : NetworkBroker} {k : ℕ} {clock : ClockReading}
  {sendOk : Bool} {task : Task}

theorem originates_next {i : NodeId} {task' : Task} {events : List BrokerEvent}
    (hnext : b.Next clock task task' events) (h : task.Originates source call i) :
    task'.Originates source call i := by
  cases hnext with
  | publish _ => exact ⟨rfl, h⟩
  | publishLocally => exact h
  | handedLocally => exact h.2
  | handLocally => exact h
  | findTargets _ => exact h
  | _ => trivial

/-- What a publication makes is a copy of the message of its call. -/
theorem genuine_of_makes {i : NodeId} (h : task.Originates source call i)
    (hlocal : b.broker.localNodeId = i) {message : BrokerMessage}
    (hmakes : b.Makes clock task message) (hid : message.id = call.id) :
    Genuine source call message := by
  rcases hmakes with ⟨call', payload, rfl, hp, rfl⟩ | ⟨call', targets, payload, rfl, hp, rfl⟩
  · obtain ⟨rfl, rfl⟩ := h hid
    exact ⟨⟨rfl, hp, rfl, rfl⟩, hlocal⟩
  · obtain ⟨rfl, rfl⟩ := h hid
    exact ⟨⟨rfl, hp, rfl, rfl⟩, hlocal⟩

end Tasks

theorem BrokerEvent.mem_packets {e : BrokerEvent} {p : Finset NodeId × BrokerMessage}
    (h : p ∈ e.packets) : p.2 ∈ e.messages := by
  cases e with
  | sent targets message =>
      cases message with
      | brokerMessage message =>
          obtain rfl := List.mem_singleton.mp h
          exact List.mem_singleton_self _
      | _ => simp [packets] at h
  | resent targets message =>
      obtain rfl := List.mem_singleton.mp h
      exact List.mem_singleton_self _
  | _ => simp [packets] at h

namespace BrokerCluster

variable {c : BrokerCluster} {source : NodeId} {call : PublishCall}

/-- All copies with the identifier of the call are copies of its message. -/
structure Authentic (source : NodeId) (call : PublishCall) (c : BrokerCluster) : Prop where
  tasks : ∀ i, ∀ task ∈ (c.nodes i).tasks, task.Originates source call i
  held : ∀ i message, (c.nodes i).Holds message → message.id = call.id →
    Genuine source call message
  sent : ∀ p ∈ c.messages, p.2.id = call.id → Genuine source call p.2
  localNodeId : ∀ i, (c.nodes i).network.broker.localNodeId = i

/-- The identifier is used by one call only. -/
def OnlyCall (source : NodeId) (call : PublishCall) (_c : BrokerCluster) : ClusterAction → Prop
  | .node i (.call task) => ∀ call' ∈ task.publication, SameCall source call i call'
  | _ => True

theorem genuine_step {i : NodeId} {a : BrokerAction} (h : c.Authentic source call)
    (hreceived : c.Received i a) (hcall : (c.nodes i).Enabled a) {message : BrokerMessage}
    (hholds : ((c.nodes i).step a).Holds message) (hid : message.id = call.id) :
    Genuine source call message := by
  cases a with
  | membership nodes => exact h.held i message hholds hid
  | call task =>
      rcases BrokerNode.holds_call hholds with hold | hnew
      · exact h.held i message hold hid
      · obtain rfl := Task.received_of_isCall hcall hnew
        obtain ⟨p, hp, -, rfl⟩ := hreceived.1 message rfl
        exact h.sent p hp hid
  | advance k clock sendOk =>
      cases htask : (c.nodes i).tasks[k]? with
      | none =>
          change ((c.nodes i).advance k clock sendOk).Holds message at hholds
          rw [BrokerNode.advance_of_none htask] at hholds
          exact h.held i message hholds hid
      | some task =>
          rcases BrokerNode.holds_advance htask hholds with hold | hmakes
          · exact h.held i message hold hid
          · exact genuine_of_makes (h.tasks i task (List.mem_of_getElem? htask))
              (h.localNodeId i) hmakes hid

theorem originates_step {i : NodeId} {a : BrokerAction} (h : c.Authentic source call)
    (hcall : (c.nodes i).Enabled a) (honly : c.OnlyCall source call (.node i a)) :
    ∀ task ∈ ((c.nodes i).step a).tasks, task.Originates source call i := by
  cases a with
  | membership nodes => exact h.tasks i
  | call task =>
      intro t ht
      rcases List.mem_append.mp ht with hold | hnew
      · exact h.tasks i t hold
      · rw [List.mem_singleton.mp hnew]
        cases task with
        | publish call' => exact honly call' rfl
        | _ => trivial
  | advance k clock sendOk =>
      change ∀ task ∈ ((c.nodes i).advance k clock sendOk).tasks, _
      cases htask : (c.nodes i).tasks[k]? with
      | none =>
          rw [BrokerNode.advance_of_none htask]
          exact h.tasks i
      | some task =>
          rw [BrokerNode.advance_eq htask]
          exact BrokerNode.forall_tasks_set (h.tasks i) k
            (originates_next (NetworkBroker.next_advance _ k clock sendOk task)
              (h.tasks i task (List.mem_of_getElem? htask)))

/-- What a property of the nodes needs to be kept by a step of one of them. -/
theorem forall_nodes_step {P : NodeId → BrokerNode → Prop} (h : ∀ i, P i (c.nodes i)) {i : NodeId}
    {a : BrokerAction} (hstep : P i ((c.nodes i).step a)) :
    ∀ j, P j ((c.step (.node i a)).nodes j) := by
  intro j
  by_cases hj : j = i
  · subst hj
    rw [step_node]
    exact hstep
  · rw [step_node_of_ne hj]
    exact h j

theorem authentic_step (h : c.Authentic source call) {a : ClusterAction} (henabled : c.Enabled a)
    (honly : c.OnlyCall source call a) : (c.step a).Authentic source call := by
  cases a with
  | fail i => exact ⟨h.tasks, h.held, h.sent, h.localNodeId⟩
  | node i a =>
      obtain ⟨-, hcall, hreceived⟩ := henabled
      have hheld (message : BrokerMessage) (hholds : ((c.nodes i).step a).Holds message)
          (hid : message.id = call.id) : Genuine source call message :=
        genuine_step h hreceived hcall hholds hid
      refine ⟨forall_nodes_step (P := fun i n => ∀ task ∈ n.tasks, task.Originates source call i)
        h.tasks (originates_step h hcall honly),
        forall_nodes_step (P := fun _ n => ∀ message, n.Holds message → message.id = call.id →
          Genuine source call message) h.held hheld, fun p hp hid => ?_,
        forall_nodes_step (P := fun i n => n.network.broker.localNodeId = i) h.localNodeId ?_⟩
      · rcases List.mem_append.mp hp with hold | hnew
        · exact h.sent p hold hid
        · obtain ⟨e, he, hpacket⟩ := List.mem_flatMap.mp hnew
          exact hheld p.2 (Or.inr (Or.inr ⟨e, List.mem_of_mem_drop he, e.mem_packets hpacket⟩)) hid
      · rw [BrokerNode.localNodeId_step]
        exact h.localNodeId i

end BrokerCluster

namespace BrokerNode

variable {n : BrokerNode}

/-! ## Lists of subscribers -/

/-- The channel was entered by a task that has done so. -/
def Subscribed (n : BrokerNode) (subscriber : Subscriber) : Prop :=
  subscriber < n.tasks.length ∧
    ∀ topic options remote, n.tasks[subscriber]? ≠ some (.subscribe topic options remote)

structure DistinctSubscribers (n : BrokerNode) : Prop where
  nodup : ∀ topic, (n.network.broker.subscribersOf topic).Nodup
  subscribed : ∀ topic, ∀ subscriber ∈ n.network.broker.subscribersOf topic,
    n.Subscribed subscriber

theorem subscribersOf_advance (b : NetworkBroker) (k : ℕ) (clock : ClockReading) (sendOk : Bool)
    (task : Task) (topic : String) :
    (b.advance k clock sendOk task).1.broker.subscribersOf topic =
      match task with
      | .subscribe topic' options _ =>
        if options.bufferSize ≠ 0 ∧ topic' = topic then b.broker.subscribersOf topic ++ [k]
        else b.broker.subscribersOf topic
      | .unsubscribe topic' _ => if topic' = topic then [] else b.broker.subscribersOf topic
      | _ => b.broker.subscribersOf topic := by
  rw [NetworkBroker.advance_network]
  cases task with
  | subscribe topic' options remote =>
      by_cases hroom : options.bufferSize = 0
      · simp [hroom, MessageBroker.subscribersOf]
      · simp only [hroom, if_false, MessageBroker.addSubscriber, MessageBroker.subscribersOf,
          Std.ExtTreeMap.getD_insert, Std.compare_eq_iff_eq, ne_eq, not_false_eq_true, true_and]
        split_ifs with htopic
        · rw [htopic]
        · rfl
  | unsubscribe topic' notifyRemote =>
      simp only [MessageBroker.unsubscribe, MessageBroker.subscribersOf,
        Std.ExtTreeMap.getD_erase, Std.compare_eq_iff_eq]
  | handleRemoteMessage message =>
      change ((b.broker.deduplicate message clock.instant).getD b.broker).subscribersOf topic = _
      unfold MessageBroker.deduplicate
      split_ifs <;> rfl
  | _ => rfl

theorem not_subscribe_advance (b : NetworkBroker) (k : ℕ) (clock : ClockReading) (sendOk : Bool)
    (task : Task) (topic : String) (options : SubscriptionOptions) (remote : Bool) :
    (b.advance k clock sendOk task).2.1 ≠ .subscribe topic options remote := by
  fun_cases NetworkBroker.advance b k clock sendOk task <;>
    first | exact Task.noConfusion | split_ifs <;> exact Task.noConfusion

theorem Subscribed.call {subscriber : Subscriber} (h : n.Subscribed subscriber) (task : Task) :
    (n.call task).Subscribed subscriber := by
  obtain ⟨hlt, hnot⟩ := h
  refine ⟨?_, fun topic options remote => ?_⟩
  · change subscriber < (n.tasks ++ [task]).length
    rw [List.length_append]
    exact Nat.lt_add_right _ hlt
  · change (n.tasks ++ [task])[subscriber]? ≠ _
    rw [List.getElem?_append_left hlt]
    exact hnot topic options remote

theorem Subscribed.advance {subscriber : Subscriber} {k : ℕ} {task : Task}
    (h : n.Subscribed subscriber ∨ subscriber = k) (htask : n.tasks[k]? = some task)
    (clock : ClockReading) (sendOk : Bool) :
    (n.advance k clock sendOk).Subscribed subscriber := by
  have hk := (List.getElem?_eq_some_iff.mp htask).1
  rw [advance_eq htask]
  refine ⟨?_, fun topic options remote => ?_⟩
  · change subscriber < (n.tasks.set k _).length
    rw [List.length_set]
    rcases h with h | rfl
    · exact h.1
    · exact hk
  · change (n.tasks.set k _)[subscriber]? ≠ _
    by_cases heq : k = subscriber
    · subst heq
      rw [List.getElem?_set_self hk]
      exact fun hsome => not_subscribe_advance n.network k clock sendOk task topic options remote
        (Option.some.inj hsome)
    · rw [List.getElem?_set_ne heq]
      rcases h with h | rfl
      · exact h.2 topic options remote
      · exact absurd rfl heq

/-- A channel is entered by the first critical section of the task that it is named by. -/
theorem distinctSubscribers_advance (h : n.DistinctSubscribers) {k : ℕ} {task : Task}
    (htask : n.tasks[k]? = some task) (clock : ClockReading) (sendOk : Bool) :
    (n.advance k clock sendOk).DistinctSubscribers := by
  have hnew (hsubscribe : ∃ topic options remote, task = .subscribe topic options remote)
      (topic : String) : k ∉ n.network.broker.subscribersOf topic := by
    obtain ⟨topic', options, remote, rfl⟩ := hsubscribe
    exact fun hmem => (h.subscribed topic k hmem).2 topic' options remote htask
  have hnetwork : (n.advance k clock sendOk).network.broker =
      (n.network.advance k clock sendOk task).1.broker := by rw [advance_eq htask]
  constructor
  · intro topic
    rw [hnetwork, subscribersOf_advance]
    cases task with
    | subscribe topic' options remote =>
        simp only
        split_ifs
        · exact List.nodup_append.mpr ⟨h.nodup topic, List.nodup_singleton k,
            fun s hs s' hs' heq => hnew ⟨_, _, _, rfl⟩ topic
              (List.mem_singleton.mp hs' ▸ heq ▸ hs)⟩
        · exact h.nodup topic
    | unsubscribe topic' notifyRemote =>
        simp only
        split_ifs
        · exact List.nodup_nil
        · exact h.nodup topic
    | _ => exact h.nodup topic
  · intro topic subscriber hmem
    rw [hnetwork, subscribersOf_advance] at hmem
    refine Subscribed.advance ?_ htask clock sendOk
    cases task with
    | subscribe topic' options remote =>
        simp only at hmem
        split_ifs at hmem
        · rcases List.mem_append.mp hmem with hold | hthis
          · exact Or.inl (h.subscribed topic subscriber hold)
          · exact Or.inr (List.mem_singleton.mp hthis)
        · exact Or.inl (h.subscribed topic subscriber hmem)
    | unsubscribe topic' notifyRemote =>
        simp only at hmem
        split_ifs at hmem
        · simp at hmem
        · exact Or.inl (h.subscribed topic subscriber hmem)
    | _ => exact Or.inl (h.subscribed topic subscriber hmem)

theorem distinctSubscribers_step (h : n.DistinctSubscribers) (a : BrokerAction) :
    (n.step a).DistinctSubscribers := by
  cases a with
  | membership nodes => exact ⟨h.nodup, h.subscribed⟩
  | call task =>
      exact ⟨h.nodup, fun topic subscriber hmem => (h.subscribed topic subscriber hmem).call task⟩
  | advance k clock sendOk =>
      change (n.advance k clock sendOk).DistinctSubscribers
      cases htask : n.tasks[k]? with
      | none =>
          rw [advance_of_none htask]
          exact h
      | some task => exact distinctSubscribers_advance h htask clock sendOk

/-! ## Counting what one subscriber is handed -/

def isHandedId (subscriber : Subscriber) (id : Uuid) : BrokerEvent → Bool
  | .handed subscriber' message => subscriber' = subscriber ∧ message.id = id
  | _ => false

/-- How often a task will hand the message to the subscriber. -/
def toHand (subscriber : Subscriber) (id : Uuid) : Task → ℕ
  | .deliverLocal message => if message.id = id then 1 else 0
  | .handRemote message remaining => if message.id = id then remaining.count subscriber else 0
  | _ => 0

/-- The cleaning of the cache that a task is about to do. -/
def cleaning (n : BrokerNode) (k : ℕ) : Option ℕ :=
  match n.tasks[k]? with
  | some (.cleanDeduplicationCache ttl) => some ttl
  | _ => none

/-- One copy may still come as long as the identifier is not in the cache. -/
def mayCome (id : Uuid) (b : MessageBroker) : ℕ := if id ∈ b.deduplicationCache then 0 else 1

theorem mayCome_mono {id : Uuid} {b b' : MessageBroker}
    (h : id ∈ b.deduplicationCache → id ∈ b'.deduplicationCache) :
    mayCome id b' ≤ mayCome id b := by
  unfold mayCome
  split_ifs with hnew hold
  · omega
  · omega
  · exact absurd (h ‹_›) hnew
  · omega

/-- The copy that is not a duplicate closes the cache for all others. -/
theorem mayCome_deduplicate {b b' : MessageBroker} {message : BrokerMessage} {now : ℕ}
    (h : b.deduplicate message now = some b') (id : Uuid)
    (hexactly : message.id = id → message.deliveryGuarantee = .exactlyOnce) :
    mayCome id b' + (if message.id = id then 1 else 0) ≤ mayCome id b := by
  unfold MessageBroker.deduplicate at h
  by_cases hid : message.id = id
  · subst hid
    rw [if_pos (hexactly rfl)] at h
    split_ifs at h with hmem
    obtain rfl := Option.some.inj h
    simp [mayCome, hmem]
  · rw [if_neg hid]
    split_ifs at h with hguarantee hmem
    · obtain rfl := Option.some.inj h
      refine mayCome_mono fun hin => ?_
      rw [Std.ExtTreeMap.mem_insert]
      exact Or.inr hin
    · obtain rfl := Option.some.inj h
      exact le_refl _

theorem countP_isHandedId (subscriber subscriber' : Subscriber) (id : Uuid)
    (message : BrokerMessage) :
    [BrokerEvent.handed subscriber' message].countP (isHandedId subscriber id) =
      if subscriber' = subscriber ∧ message.id = id then 1 else 0 := by
  simp [List.countP_cons, isHandedId]

section Count

variable {source : NodeId} {call : PublishCall} {i : NodeId} {b : NetworkBroker} {task : Task}
  {clock : ClockReading}

/-- A critical section at another node than the source does not add to what the subscriber was and
will be handed. -/
theorem toHand_advance (hi : i ≠ source) (horiginates : task.Originates source call i)
    (hexactly : ∀ message ∈ task.messages, message.id = call.id →
      message.deliveryGuarantee = .exactlyOnce)
    (hnodup : ∀ topic, (b.broker.subscribersOf topic).Nodup)
    (hkept : ∀ ttl, task = .cleanDeduplicationCache ttl →
      call.id ∈ b.broker.deduplicationCache →
      call.id ∈ (b.broker.cleanDeduplicationCache ttl clock.instant).deduplicationCache)
    (subscriber : Subscriber) (k : ℕ) (sendOk : Bool) :
    toHand subscriber call.id (b.advance k clock sendOk task).2.1 +
      (b.advance k clock sendOk task).2.2.countP (isHandedId subscriber call.id) +
      mayCome call.id (b.advance k clock sendOk task).1.broker ≤
        toHand subscriber call.id task + mayCome call.id b.broker := by
  cases task with
  | handLocally call' message remaining =>
      cases remaining with
      | nil => exact le_refl _
      | cons subscriber' remaining =>
          have hother : message.id ≠ call.id := fun hid =>
            hi (horiginates.2 (horiginates.1.symm.trans hid)).1
          simp only [NetworkBroker.advance, countP_isHandedId, hother, and_false, if_false]
          exact le_refl _
  | handleRemoteMessage message =>
      cases hd : b.broker.deduplicate message clock.instant with
      | none =>
          simp only [NetworkBroker.advance, hd]
          exact le_refl _
      | some broker =>
          have hclose := mayCome_deduplicate hd call.id
            (hexactly message (List.mem_singleton_self message))
          simp only [NetworkBroker.advance, hd, toHand, List.countP_nil]
          omega
  | deliverLocal message =>
      have hcount := List.nodup_iff_count_le_one.mp (hnodup message.topic) subscriber
      simp only [NetworkBroker.advance, toHand, List.countP_nil]
      split_ifs <;> omega
  | handRemote message remaining =>
      cases remaining with
      | nil =>
          simp only [NetworkBroker.advance, toHand, List.countP_nil, List.count_nil]
          omega
      | cons subscriber' remaining =>
          simp only [NetworkBroker.advance, toHand, countP_isHandedId, List.count_cons, beq_iff_eq]
          split_ifs <;> simp_all
  | cleanDeduplicationCache ttl =>
      simp only [NetworkBroker.advance, toHand, List.countP_nil]
      have := mayCome_mono (hkept ttl rfl)
      omega
  | publish call' =>
      cases hp : call'.payload <;> simp only [NetworkBroker.advance, hp] <;> exact le_refl _
  | findTargets call' =>
      simp only [NetworkBroker.advance]
      split_ifs <;> exact le_refl _
  | resequence call' targets =>
      cases hp : call'.payload <;> simp only [NetworkBroker.advance, hp] <;> exact le_refl _
  | track message targets =>
      simp only [NetworkBroker.advance]
      split_ifs <;> exact le_refl _
  | subscribe topic options remote =>
      simp only [NetworkBroker.advance]
      split_ifs <;> exact le_refl _
  | unsubscribe topic notifyRemote => cases notifyRemote <;> exact le_refl _
  | handleBrokerMessage message =>
      simp only [NetworkBroker.advance]
      split_ifs <;> exact le_refl _
  | retransmit plan =>
      have hnone : (NetworkBroker.retransmissions plan).countP
          (isHandedId subscriber call.id) = 0 := by
        refine List.countP_eq_zero.mpr fun e he => ?_
        obtain ⟨r, -, rfl⟩ := List.mem_map.mp he
        simp [isHandedId]
      simp only [NetworkBroker.advance, hnone]
      exact le_refl _
  | _ => exact le_refl _

end Count

end BrokerNode

namespace BrokerCluster

variable {c : BrokerCluster} {source : NodeId} {call : PublishCall}

/-- The entry of the message is not cleaned from a cache. -/
def KeepsEntry (id : Uuid) (c : BrokerCluster) : ClusterAction → Prop
  | .node i (.advance k clock _) => ∀ ttl ∈ (c.nodes i).cleaning k,
      id ∈ (c.nodes i).network.broker.deduplicationCache →
      id ∈ ((c.nodes i).network.broker.cleanDeduplicationCache ttl clock.instant).deduplicationCache
  | _ => True

/-- At another node than the source, a subscriber was and will be handed the message once at
most. -/
def HandedOnce (source : NodeId) (id : Uuid) (i : NodeId) (n : BrokerNode) : Prop :=
  i ≠ source → ∀ subscriber, n.mass (BrokerNode.toHand subscriber id) +
    n.log.countP (BrokerNode.isHandedId subscriber id) +
    BrokerNode.mayCome id n.network.broker ≤ 1

theorem handedOnce_step (hauthentic : c.Authentic source call)
    (hexactly : call.guarantee = .exactlyOnce) {i : NodeId}
    (hnodup : (c.nodes i).DistinctSubscribers) (h : HandedOnce source call.id i (c.nodes i))
    {a : BrokerAction} (hcall : (c.nodes i).Enabled a)
    (hkept : c.KeepsEntry call.id (.node i a)) :
    HandedOnce source call.id i ((c.nodes i).step a) := by
  intro hi subscriber
  have hold := h hi subscriber
  cases a with
  | membership nodes => exact hold
  | call task =>
      change ((c.nodes i).call task).mass _ +
        ((c.nodes i).log ++ BrokerNode.callEvents task).countP _ +
          BrokerNode.mayCome _ (c.nodes i).network.broker ≤ 1
      have hweight : BrokerNode.toHand subscriber call.id task = 0 := by
        cases task with
        | _ => first | rfl | exact Bool.noConfusion hcall
      have hevents : (BrokerNode.callEvents task).countP
          (BrokerNode.isHandedId subscriber call.id) = 0 := by
        refine List.countP_eq_zero.mpr fun e he => ?_
        obtain ⟨call', -, rfl⟩ := BrokerNode.mem_callEvents he
        simp [BrokerNode.isHandedId]
      rw [BrokerNode.mass_call, List.countP_append, hweight, hevents]
      omega
  | advance k clock sendOk =>
      change ((c.nodes i).advance k clock sendOk).mass _ +
        ((c.nodes i).advance k clock sendOk).log.countP _ +
        BrokerNode.mayCome _ ((c.nodes i).advance k clock sendOk).network.broker ≤ 1
      cases htask : (c.nodes i).tasks[k]? with
      | none =>
          rw [BrokerNode.advance_of_none htask]
          exact hold
      | some task =>
          have hmem := List.mem_of_getElem? htask
          have hcount := BrokerNode.toHand_advance hi (hauthentic.tasks i task hmem)
            (fun message hmessage hid => by
              obtain ⟨⟨-, -, -, hguarantee⟩, -⟩ :=
                hauthentic.held i message (Or.inl ⟨task, hmem, hmessage⟩) hid
              rw [hguarantee, hexactly])
            hnodup.nodup (fun ttl httl => hkept ttl (by simp [BrokerNode.cleaning, htask, httl]))
            subscriber k sendOk
          have hmass := BrokerNode.mass_advance (BrokerNode.toHand subscriber call.id) htask clock
            sendOk
          rw [BrokerNode.advance_eq htask] at hmass ⊢
          rw [List.countP_append]
          simp only at hmass ⊢
          omega

/-- A message that is published exactly once is handed at most once to every subscriber of every
other node, whatever is lost, duplicated, retransmitted or handled at the same time, and every copy
of it is a copy of what was published. -/
theorem exactly_once (membership : NodeId → Std.ExtTreeMap NodeId NodeInfo compare)
    (source : NodeId) (call : PublishCall) (hexactly : call.guarantee = .exactlyOnce)
    (as : List ClusterAction) (has : Admissible step Enabled (new membership) as)
    (honly : Admissible step (OnlyCall source call) (new membership) as)
    (hkept : Admissible step (KeepsEntry call.id) (new membership) as) :
    (∀ i ≠ source, ∀ subscriber, ((run step (new membership) as).nodes i).log.countP
      (BrokerNode.isHandedId subscriber call.id) ≤ 1) ∧
      ∀ i message, ((run step (new membership) as).nodes i).Holds message →
        message.id = call.id → Genuine source call message := by
  have hinvariant : (run step (new membership) as).Authentic source call ∧
      (∀ i, ((run step (new membership) as).nodes i).DistinctSubscribers) ∧
      ∀ i, HandedOnce source call.id i ((run step (new membership) as).nodes i) := by
    refine invariant_run (I := fun c => c.Authentic source call ∧
      (∀ i, (c.nodes i).DistinctSubscribers) ∧ ∀ i, HandedOnce source call.id i (c.nodes i))
      (fun c a h hok => ?_) ?_
      (admissible_and.mpr ⟨has, admissible_and.mpr ⟨honly, hkept⟩⟩)
    · obtain ⟨hauthentic, hnodup, honce⟩ := h
      obtain ⟨henabled, honly, hkept⟩ := hok
      refine ⟨authentic_step hauthentic henabled honly, ?_⟩
      cases a with
      | fail i => exact ⟨hnodup, honce⟩
      | node i a =>
          exact ⟨forall_nodes_step (P := fun _ n => n.DistinctSubscribers) hnodup
              (BrokerNode.distinctSubscribers_step (hnodup i) a),
            forall_nodes_step honce (handedOnce_step hauthentic hexactly (hnodup i) (honce i)
              henabled.2.1 hkept)⟩
    · refine ⟨⟨fun i task ht => ?_, fun i message hholds => ?_, fun p hp => ?_, fun i => rfl⟩,
        fun i => ⟨fun topic => ?_, fun topic s hs => ?_⟩, fun i hi s => ?_⟩
      · simp [new, BrokerNode.new] at ht
      · exact absurd hholds (BrokerNode.not_holds_new i (membership i))
      · simp [new] at hp
      · simp [new, BrokerNode.new, NetworkBroker.new, MessageBroker.new,
          MessageBroker.subscribersOf]
      · simp [new, BrokerNode.new, NetworkBroker.new, MessageBroker.new,
          MessageBroker.subscribersOf] at hs
      · simp [new, BrokerNode.new, BrokerNode.mass, NetworkBroker.new, MessageBroker.new,
          BrokerNode.mayCome]
  obtain ⟨hauthentic, -, honce⟩ := hinvariant
  refine ⟨fun i hi subscriber => ?_, hauthentic.held⟩
  have hcount := honce i hi subscriber
  omega

instance decidableOnlyCall (source : NodeId) (call : PublishCall) (c : BrokerCluster)
    (a : ClusterAction) : Decidable (c.OnlyCall source call a) :=
  match a with
  | .node i (.call task) => inferInstanceAs (Decidable (∀ call' ∈ task.publication,
      call'.id = call.id → i = source ∧ call' = call))
  | .node _ (.advance _ _ _) => isTrue trivial
  | .node _ (.membership _) => isTrue trivial
  | .fail _ => isTrue trivial

instance decidableKeepsEntry (id : Uuid) (c : BrokerCluster) (a : ClusterAction) :
    Decidable (c.KeepsEntry id a) :=
  match a with
  | .node i (.advance k clock _) => inferInstanceAs (Decidable (∀ ttl ∈ (c.nodes i).cleaning k,
      id ∈ (c.nodes i).network.broker.deduplicationCache →
      id ∈ ((c.nodes i).network.broker.cleanDeduplicationCache ttl
        clock.instant).deduplicationCache))
  | .node _ (.call _) => isTrue trivial
  | .node _ (.membership _) => isTrue trivial
  | .fail _ => isTrue trivial

def settlement : PublishCall := ⟨"trades", some [1], .exactlyOnce, 7⟩

def settlementMessage : BrokerMessage := ⟨"trades", [1], 7, 0, 0, 1, .exactlyOnce⟩

/-- Node 0 publishes for a subscriber of node 1, the network duplicates the message, and both copies
are handled at the same time. -/
def handledTwice : List ClusterAction :=
  ([.node 1 (.call (.subscribe "trades" ⟨.exactlyOnce, 100, false, none⟩ false)),
    .node 1 (.advance 0 ⟨0, 0⟩ true), .node 0 (.call (.handleRemoteSubscription "trades" 1)),
    .node 0 (.advance 0 ⟨0, 0⟩ true), .node 0 (.call (.publish settlement))] :
      List ClusterAction) ++
    List.replicate 7 (ClusterAction.node 0 (.advance 1 ⟨0, 0⟩ true)) ++
    ([.node 1 (.call (.handleBrokerMessage settlementMessage)),
      .node 1 (.call (.handleBrokerMessage settlementMessage)),
      .node 1 (.advance 1 ⟨0, 0⟩ true), .node 1 (.advance 2 ⟨0, 0⟩ true)] : List ClusterAction) ++
    List.replicate 4 (ClusterAction.node 1 (.advance 2 ⟨0, 0⟩ true)) ++
    List.replicate 4 (ClusterAction.node 1 (.advance 1 ⟨0, 0⟩ true))

theorem exactly_once_handledTwice :
    ((run step (new fun _ => ∅) handledTwice).nodes 1).log.countP
      (BrokerNode.isHandedId 0 7) = 1 ∧
      ∀ subscriber, ((run step (new fun _ => ∅) handledTwice).nodes 1).log.countP
        (BrokerNode.isHandedId subscriber 7) ≤ 1 := by
  exact ⟨by decide +kernel, (exactly_once (fun _ => ∅) 0 settlement rfl handledTwice
    (by decide +kernel) (by decide +kernel) (by decide +kernel)).1 1 (by decide)⟩

end BrokerCluster

end ActixPura
