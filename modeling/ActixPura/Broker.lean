import ActixPura.ClusterMessages
import ActixPura.Runs

/-!
# The message broker

`broker.rs`. A `NetworkBroker` distributes published messages to the channels of local subscribers
and to the nodes that have announced a subscription, and keeps a message that has to be acknowledged
until its targets have done so. Its methods are asynchronous and share tables behind locks, so a
call is a `Task` that is cut at the lock acquisitions: `advance` performs one critical section, and
the critical sections of different tasks interleave.

A channel is named by the task that created it. A message that a caller publishes is given by what
`serialize` answers for it. Besides the tables and the tasks a node keeps a log of what it has done,
which the source does not have.
-/

namespace ActixPura

open Std (ExtTreeMap)

abbrev Subscriber := ℕ

/-- A reading of the two clocks, the monotonic one in nanoseconds. -/
structure ClockReading where
  instant : ℕ
  seconds : UInt64

structure PendingMessage where
  message : BrokerMessage
  firstSent : ℕ
  lastRetry : ℕ
  retryCount : UInt8
  ackedBy : Finset NodeId
  targetNodes : Finset NodeId

structure MessageBroker where
  localNodeId : NodeId
  subscriptions : ExtTreeMap String (List Subscriber) compare
  deduplicationCache : ExtTreeMap Uuid ℕ compare
  sequenceCounters : ExtTreeMap String UInt64 compare

structure NetworkBroker where
  broker : MessageBroker
  remoteSubscriptions : ExtTreeMap String (Finset NodeId) compare
  pendingMessages : ExtTreeMap Uuid PendingMessage compare
  nodes : ExtTreeMap NodeId NodeInfo compare

structure PublishCall where
  topic : String
  payload : Option (List UInt8)
  guarantee : DeliveryGuarantee
  id : Uuid
  deriving DecidableEq

/-- What one pass over the pending messages has decided under the read lock. -/
structure RetryPlan where
  retry : List (BrokerMessage × Finset NodeId × Finset NodeId)
  update : List (Uuid × UInt8)
  remove : List Uuid
  now : ℕ

/-- A call at the point where it waits for its next lock. -/
inductive Task
  | publish (call : PublishCall)
  | publishLocally (call : PublishCall) (message : BrokerMessage)
  | handLocally (call : PublishCall) (message : BrokerMessage) (remaining : List Subscriber)
  | findTargets (call : PublishCall)
  | resequence (call : PublishCall) (targets : Finset NodeId)
  | track (message : BrokerMessage) (targets : Finset NodeId)
  | distribute (message : BrokerMessage) (targets : Finset NodeId)
  | subscribe (topic : String) (options : SubscriptionOptions) (remote : Bool)
  | listNodes (topic : String) (options : SubscriptionOptions)
  | subscribeRemote (topic : String) (options : SubscriptionOptions) (nodes : List NodeId)
  | announceSubscribe (topic : String) (options : SubscriptionOptions) (nodes : List NodeId)
  | unsubscribe (topic : String) (notifyRemote : Bool)
  | announceUnsubscribe (topic : String)
  | handleRemoteSubscription (topic : String) (nodeId : NodeId)
  | handleRemoteUnsubscribe (topic : String) (nodeId : NodeId)
  | handleMessageAck (ack : MessageAck)
  | handleBrokerMessage (message : BrokerMessage)
  | handleRemoteMessage (message : BrokerMessage)
  | deliverLocal (message : BrokerMessage)
  | handRemote (message : BrokerMessage) (remaining : List Subscriber)
  | processPendingMessages
  | updateRetries (plan : RetryPlan)
  | retransmit (plan : RetryPlan)
  | removeExpired (plan : RetryPlan)
  | cleanDeduplicationCache (ttl : ℕ)
  | done

/-- What a critical section has done. One that sends a message to several nodes does so under the
lock of the transport, and the order in which it goes through them is left open. -/
inductive BrokerEvent
  | started (call : PublishCall)
  | numbered (call : PublishCall) (sequence : UInt64)
  | routed (call : PublishCall) (targets : Finset NodeId)
  | returned (id : Uuid)
  | tracked (id : Uuid) (targets : Finset NodeId)
  | acked (ack : MessageAck)
  | announced (topic : String) (nodeId : NodeId) (subscribed : Bool)
  | acknowledged (message : BrokerMessage) (subscribers : List Subscriber)
  | handed (subscriber : Subscriber) (message : BrokerMessage)
  | sent (targets : Finset NodeId) (message : TransportMessage)
  | resent (targets : Finset NodeId) (message : BrokerMessage)

namespace MessageBroker

def new (localNodeId : NodeId) : MessageBroker := ⟨localNodeId, ∅, ∅, ∅⟩

/-- The number that the next message of the topic gets. -/
def nextSequence (b : MessageBroker) (topic : String) : UInt64 :=
  b.sequenceCounters.getD topic 0 + 1

def takeSequence (b : MessageBroker) (topic : String) : MessageBroker :=
  { b with sequenceCounters := b.sequenceCounters.insert topic (b.nextSequence topic) }

def subscribersOf (b : MessageBroker) (topic : String) : List Subscriber :=
  b.subscriptions.getD topic []

def addSubscriber (b : MessageBroker) (topic : String) (subscriber : Subscriber) :
    MessageBroker :=
  { b with subscriptions :=
      b.subscriptions.insert topic (b.subscribersOf topic ++ [subscriber]) }

def unsubscribe (b : MessageBroker) (topic : String) : MessageBroker :=
  { b with subscriptions := b.subscriptions.erase topic }

/-- `none` for a duplicate. -/
def deduplicate (b : MessageBroker) (msg : BrokerMessage) (now : ℕ) : Option MessageBroker :=
  if msg.deliveryGuarantee = .exactlyOnce then
    if msg.id ∈ b.deduplicationCache then none
    else some { b with deduplicationCache := b.deduplicationCache.insert msg.id now }
  else some b

def cleanDeduplicationCache (b : MessageBroker) (ttl now : ℕ) : MessageBroker :=
  { b with deduplicationCache := b.deduplicationCache.filter fun _ timestamp =>
      now - timestamp < ttl }

end MessageBroker

namespace NetworkBroker

def new (localNodeId : NodeId) (nodes : ExtTreeMap NodeId NodeInfo compare) : NetworkBroker :=
  ⟨.new localNodeId, ∅, ∅, nodes⟩

def remoteNodes (b : NetworkBroker) (topic : String) : Finset NodeId :=
  b.remoteSubscriptions.getD topic ∅

/-- The nodes other than the local one are entered as subscribers of the topic. -/
def subscribeRemote (b : NetworkBroker) (topic : String) (nodes : List NodeId) : NetworkBroker :=
  let others := (nodes.filter (· ≠ b.broker.localNodeId)).toFinset
  { b with remoteSubscriptions :=
      b.remoteSubscriptions.insert topic (b.remoteNodes topic ∪ others) }

def handleRemoteSubscription (b : NetworkBroker) (topic : String) (nodeId : NodeId) :
    NetworkBroker :=
  { b with remoteSubscriptions :=
      b.remoteSubscriptions.insert topic (insert nodeId (b.remoteNodes topic)) }

def handleRemoteUnsubscribe (b : NetworkBroker) (topic : String) (nodeId : NodeId) :
    NetworkBroker :=
  { b with remoteSubscriptions :=
      match b.remoteSubscriptions[topic]? with
      | none => b.remoteSubscriptions
      | some subscribers =>
        if subscribers.erase nodeId = ∅ then b.remoteSubscriptions.erase topic
        else b.remoteSubscriptions.insert topic (subscribers.erase nodeId) }

def brokerMessage (b : NetworkBroker) (call : PublishCall) (payload : List UInt8)
    (sequence timestamp : UInt64) : BrokerMessage where
  topic := call.topic
  payload := payload
  id := call.id
  sourceNode := b.broker.localNodeId
  timestamp := timestamp
  sequence := sequence
  deliveryGuarantee := call.guarantee

/-- A message that is not delivered at most once waits for its acknowledgements. -/
def track (b : NetworkBroker) (message : BrokerMessage) (targets : Finset NodeId) (now : ℕ) :
    NetworkBroker :=
  { b with pendingMessages :=
      if message.deliveryGuarantee = .atMostOnce then b.pendingMessages
      else b.pendingMessages.insert message.id ⟨message, now, now, 0, ∅, targets⟩ }

def handleMessageAck (b : NetworkBroker) (ack : MessageAck) : NetworkBroker :=
  { b with pendingMessages :=
      match b.pendingMessages[ack.messageId]? with
      | none => b.pendingMessages
      | some msg =>
        let msg := { msg with ackedBy := insert ack.nodeId msg.ackedBy }
        if msg.ackedBy.card = msg.targetNodes.card then b.pendingMessages.erase ack.messageId
        else b.pendingMessages.insert ack.messageId msg }

def retryAfter : ℕ := 10 * 10 ^ 9

def maxRetries : UInt8 := 5

def planRetries (b : NetworkBroker) (now : ℕ) : RetryPlan :=
  let due := b.pendingMessages.toList.filter fun e =>
    now - e.2.lastRetry > retryAfter ∧ e.2.retryCount < maxRetries
  let expired := b.pendingMessages.toList.filter fun e =>
    ¬ (now - e.2.lastRetry > retryAfter ∧ e.2.retryCount < maxRetries) ∧
      e.2.retryCount ≥ maxRetries
  { retry := due.map fun e => (e.2.message, e.2.targetNodes, e.2.ackedBy)
    update := due.map fun e => (e.1, e.2.retryCount + 1)
    remove := expired.map Prod.fst
    now := now }

def updateRetry (now : ℕ) (pending : ExtTreeMap Uuid PendingMessage compare)
    (update : Uuid × UInt8) : ExtTreeMap Uuid PendingMessage compare :=
  match pending[update.1]? with
  | none => pending
  | some msg => pending.insert update.1 { msg with retryCount := update.2, lastRetry := now }

def updateRetries (b : NetworkBroker) (plan : RetryPlan) : NetworkBroker :=
  { b with pendingMessages := plan.update.foldl (updateRetry plan.now) b.pendingMessages }

def removeExpired (b : NetworkBroker) (plan : RetryPlan) : NetworkBroker :=
  { b with pendingMessages :=
      plan.remove.foldl (fun pending id => pending.erase id) b.pendingMessages }

/-- A message is sent again to the targets that had not acknowledged when the table was read. -/
def retransmissions (plan : RetryPlan) : List BrokerEvent :=
  plan.retry.map fun r => .resent (r.2.1 \ r.2.2) r.1

/-- The other nodes that are up. -/
def activeNodes (b : NetworkBroker) : List NodeId :=
  (b.nodes.toList.filter fun e => e.2.status = .up ∧ e.2.id ≠ b.broker.localNodeId).map Prod.fst

/-- The next critical section of task `k`: the tables after it, what is left of the task and what
was done. `sendOk` is whether the transport takes the acknowledgement; errors of the other sends
are only logged by the source. -/
def advance (b : NetworkBroker) (k : ℕ) (clock : ClockReading) (sendOk : Bool) :
    Task → NetworkBroker × Task × List BrokerEvent
  | .publish call =>
    let sequence := b.broker.nextSequence call.topic
    let b' := { b with broker := b.broker.takeSequence call.topic }
    match call.payload with
    | none => (b', .done, [.numbered call sequence, .returned call.id])
    | some payload =>
      (b', .publishLocally call (b.brokerMessage call payload sequence clock.seconds),
        [.numbered call sequence])
  | .publishLocally call message =>
    (b, .handLocally call message (b.broker.subscribersOf message.topic), [])
  | .handLocally call _ [] => (b, .findTargets call, [])
  | .handLocally call message (subscriber :: remaining) =>
    (b, .handLocally call message remaining, [.handed subscriber message])
  | .findTargets call =>
    let targets := b.remoteNodes call.topic
    if targets = ∅ then (b, .done, [.routed call targets, .returned call.id])
    else (b, .resequence call targets, [.routed call targets])
  | .resequence call targets =>
    let sequence := b.broker.sequenceCounters.getD call.topic 0
    match call.payload with
    | none => (b, .done, [.returned call.id])
    | some payload =>
      (b, .track (b.brokerMessage call payload sequence clock.seconds) targets, [])
  | .track message targets =>
    (b.track message targets clock.instant, .distribute message targets,
      if message.deliveryGuarantee = .atMostOnce then [] else [.tracked message.id targets])
  | .distribute message targets =>
    (b, .done, [.sent targets (.brokerMessage message), .returned message.id])
  | .subscribe topic options remote =>
    -- `mpsc::channel` panics without a buffer
    if options.bufferSize = 0 then (b, .done, [])
    else ({ b with broker := b.broker.addSubscriber topic k },
      if remote then .listNodes topic options else .done, [])
  | .listNodes topic options => (b, .subscribeRemote topic options b.nodes.keys, [])
  | .subscribeRemote topic options nodes =>
    (b.subscribeRemote topic nodes, .announceSubscribe topic options nodes, [])
  | .announceSubscribe topic options nodes =>
    (b, .done, [.sent (nodes.filter (· ≠ b.broker.localNodeId)).toFinset
      (.subscribe topic options)])
  | .unsubscribe topic notifyRemote =>
    ({ b with broker := b.broker.unsubscribe topic },
      if notifyRemote then .announceUnsubscribe topic else .done, [])
  | .announceUnsubscribe topic =>
    (b, .done, [.sent b.activeNodes.toFinset
      (.brokerUnsubscribe topic b.broker.localNodeId)])
  | .handleRemoteSubscription topic nodeId =>
    (b.handleRemoteSubscription topic nodeId, .done, [.announced topic nodeId true])
  | .handleRemoteUnsubscribe topic nodeId =>
    (b.handleRemoteUnsubscribe topic nodeId, .done, [.announced topic nodeId false])
  | .handleMessageAck ack => (b.handleMessageAck ack, .done, [.acked ack])
  | .handleBrokerMessage message =>
    if message.deliveryGuarantee = .atMostOnce then (b, .handleRemoteMessage message, [])
    else if sendOk then
      (b, .handleRemoteMessage message,
        [.acknowledged message (b.broker.subscribersOf message.topic),
          .sent {message.sourceNode} (.brokerAck
            ⟨message.id, message.topic, b.broker.localNodeId, clock.seconds⟩)])
    else (b, .done, [])
  | .handleRemoteMessage message =>
    match b.broker.deduplicate message clock.instant with
    | none => (b, .done, [])
    | some broker => ({ b with broker := broker }, .deliverLocal message, [])
  | .deliverLocal message =>
    (b, .handRemote message (b.broker.subscribersOf message.topic), [])
  | .handRemote _ [] => (b, .done, [])
  | .handRemote message (subscriber :: remaining) =>
    (b, .handRemote message remaining, [.handed subscriber message])
  | .processPendingMessages => (b, .updateRetries (b.planRetries clock.instant), [])
  | .updateRetries plan => (b.updateRetries plan, .retransmit plan, [])
  | .retransmit plan => (b, .removeExpired plan, retransmissions plan)
  | .removeExpired plan => (b.removeExpired plan, .done, [])
  | .cleanDeduplicationCache ttl =>
    ({ b with broker := b.broker.cleanDeduplicationCache ttl clock.instant }, .done, [])
  | .done => (b, .done, [])

/-- The critical sections that write a table, and what they write. -/
theorem advance_network (b : NetworkBroker) (k : ℕ) (clock : ClockReading) (sendOk : Bool)
    (task : Task) :
    (b.advance k clock sendOk task).1 =
      match task with
      | .publish call => { b with broker := b.broker.takeSequence call.topic }
      | .track message targets => b.track message targets clock.instant
      | .subscribe topic options _ =>
        { b with
          broker.subscriptions := if options.bufferSize = 0 then b.broker.subscriptions
            else (b.broker.addSubscriber topic k).subscriptions }
      | .subscribeRemote topic _ nodes => b.subscribeRemote topic nodes
      | .unsubscribe topic _ => { b with broker := b.broker.unsubscribe topic }
      | .handleRemoteSubscription topic nodeId => b.handleRemoteSubscription topic nodeId
      | .handleRemoteUnsubscribe topic nodeId => b.handleRemoteUnsubscribe topic nodeId
      | .handleMessageAck ack => b.handleMessageAck ack
      | .handleRemoteMessage message =>
        { b with broker := (b.broker.deduplicate message clock.instant).getD b.broker }
      | .updateRetries plan => b.updateRetries plan
      | .removeExpired plan => b.removeExpired plan
      | .cleanDeduplicationCache ttl =>
        { b with broker := b.broker.cleanDeduplicationCache ttl clock.instant }
      | _ => b := by
  cases task with
  | publish call => cases hp : call.payload <;> simp only [advance, hp]
  | findTargets call => exact (apply_ite Prod.fst _ _ _).trans (ite_self b)
  | subscribe topic options remote =>
      simp only [advance]
      split_ifs <;> rfl
  | resequence call targets => cases hp : call.payload <;> simp only [advance, hp]
  | handleBrokerMessage message =>
      simp only [advance]
      split_ifs <;> rfl
  | handleRemoteMessage message =>
      cases hd : b.broker.deduplicate message clock.instant <;> simp only [advance, hd] <;> rfl
  | handLocally call message remaining => cases remaining <;> rfl
  | handRemote message remaining => cases remaining <;> rfl
  | _ => rfl

/-- What a critical section leaves of a task, and what it does, where the task goes on. -/
inductive Next (b : NetworkBroker) (clock : ClockReading) :
    Task → Task → List BrokerEvent → Prop
  | done {task : Task} {events : List BrokerEvent} : Next b clock task .done events
  | publish {call : PublishCall} {payload : List UInt8} (hp : call.payload = some payload) :
      Next b clock (.publish call)
        (.publishLocally call
          (b.brokerMessage call payload (b.broker.nextSequence call.topic) clock.seconds))
        [.numbered call (b.broker.nextSequence call.topic)]
  | publishLocally {call : PublishCall} {message : BrokerMessage} :
      Next b clock (.publishLocally call message)
        (.handLocally call message (b.broker.subscribersOf message.topic)) []
  | handedLocally {call : PublishCall} {message : BrokerMessage} :
      Next b clock (.handLocally call message []) (.findTargets call) []
  | handLocally {call : PublishCall} {message : BrokerMessage} {subscriber : Subscriber}
      {remaining : List Subscriber} :
      Next b clock (.handLocally call message (subscriber :: remaining))
        (.handLocally call message remaining) [.handed subscriber message]
  | findTargets {call : PublishCall} (htargets : b.remoteNodes call.topic ≠ ∅) :
      Next b clock (.findTargets call) (.resequence call (b.remoteNodes call.topic))
        [.routed call (b.remoteNodes call.topic)]
  | resequence {call : PublishCall} {targets : Finset NodeId} {payload : List UInt8}
      (hp : call.payload = some payload) :
      Next b clock (.resequence call targets)
        (.track (b.brokerMessage call payload (b.broker.sequenceCounters.getD call.topic 0)
          clock.seconds) targets) []
  | track {message : BrokerMessage} {targets : Finset NodeId} :
      Next b clock (.track message targets) (.distribute message targets)
        (if message.deliveryGuarantee = .atMostOnce then [] else [.tracked message.id targets])
  | subscribe {topic : String} {options : SubscriptionOptions} :
      Next b clock (.subscribe topic options true) (.listNodes topic options) []
  | listNodes {topic : String} {options : SubscriptionOptions} :
      Next b clock (.listNodes topic options) (.subscribeRemote topic options b.nodes.keys) []
  | subscribeRemote {topic : String} {options : SubscriptionOptions} {nodes : List NodeId} :
      Next b clock (.subscribeRemote topic options nodes)
        (.announceSubscribe topic options nodes) []
  | unsubscribe {topic : String} :
      Next b clock (.unsubscribe topic true) (.announceUnsubscribe topic) []
  | unacknowledged {message : BrokerMessage} (hmost : message.deliveryGuarantee = .atMostOnce) :
      Next b clock (.handleBrokerMessage message) (.handleRemoteMessage message) []
  | acknowledged {message : BrokerMessage} {targets : Finset NodeId} {sent : TransportMessage} :
      Next b clock (.handleBrokerMessage message) (.handleRemoteMessage message)
        [.acknowledged message (b.broker.subscribersOf message.topic), .sent targets sent]
  | handleRemoteMessage {message : BrokerMessage} {broker : MessageBroker}
      (hd : b.broker.deduplicate message clock.instant = some broker) :
      Next b clock (.handleRemoteMessage message) (.deliverLocal message) []
  | deliverLocal {message : BrokerMessage} :
      Next b clock (.deliverLocal message)
        (.handRemote message (b.broker.subscribersOf message.topic)) []
  | handRemote {message : BrokerMessage} {subscriber : Subscriber} {remaining : List Subscriber} :
      Next b clock (.handRemote message (subscriber :: remaining)) (.handRemote message remaining)
        [.handed subscriber message]
  | processPendingMessages :
      Next b clock .processPendingMessages (.updateRetries (b.planRetries clock.instant)) []
  | updateRetries {plan : RetryPlan} : Next b clock (.updateRetries plan) (.retransmit plan) []
  | retransmit {plan : RetryPlan} :
      Next b clock (.retransmit plan) (.removeExpired plan) (retransmissions plan)

theorem next_advance (b : NetworkBroker) (k : ℕ) (clock : ClockReading) (sendOk : Bool)
    (task : Task) :
    b.Next clock task (b.advance k clock sendOk task).2.1 (b.advance k clock sendOk task).2.2 := by
  cases task with
  | publish call =>
      cases hp : call.payload <;> simp only [advance, hp]
      · exact .done
      · exact .publish hp
  | publishLocally call message => exact .publishLocally
  | handLocally call message remaining =>
      cases remaining with
      | nil => exact .handedLocally
      | cons subscriber remaining => exact .handLocally
  | findTargets call =>
      simp only [advance]
      split_ifs with hempty
      · exact .done
      · exact .findTargets hempty
  | resequence call targets =>
      cases hp : call.payload <;> simp only [advance, hp]
      · exact .done
      · exact .resequence hp
  | track message targets => exact .track
  | subscribe topic options remote =>
      simp only [advance]
      split_ifs with hroom hremote
      · exact .done
      · rw [hremote]
        exact .subscribe
      · exact .done
  | listNodes topic options => exact .listNodes
  | subscribeRemote topic options nodes => exact .subscribeRemote
  | unsubscribe topic notifyRemote =>
      cases notifyRemote with
      | false => exact .done
      | true => exact .unsubscribe
  | handleBrokerMessage message =>
      simp only [advance]
      split_ifs with hmost
      · exact .unacknowledged hmost
      · exact .acknowledged
      · exact .done
  | handleRemoteMessage message =>
      cases hd : b.broker.deduplicate message clock.instant <;> simp only [advance, hd]
      · exact .done
      · exact .handleRemoteMessage hd
  | deliverLocal message => exact .deliverLocal
  | handRemote message remaining =>
      cases remaining with
      | nil => exact .done
      | cons subscriber remaining => exact .handRemote
  | processPendingMessages => exact .processPendingMessages
  | updateRetries plan => exact .updateRetries
  | retransmit plan => exact .retransmit
  | _ => exact .done

/-- The task that an event comes from. -/
def Origin (b : NetworkBroker) (task : Task) : BrokerEvent → Prop
  | .started _ => False
  | .numbered call sequence => task = .publish call ∧ sequence = b.broker.nextSequence call.topic
  | .routed call targets => task = .findTargets call ∧ targets = b.remoteNodes call.topic
  | .returned id => (∃ call, task = .publish call ∧ call.payload = none ∧ call.id = id) ∨
      (∃ call, task = .findTargets call ∧ b.remoteNodes call.topic = ∅ ∧ call.id = id) ∨
      (∃ call targets, task = .resequence call targets ∧ call.payload = none ∧ call.id = id) ∨
      ∃ message targets, task = .distribute message targets ∧ message.id = id
  | .tracked id targets => ∃ message, task = .track message targets ∧ message.id = id ∧
      message.deliveryGuarantee ≠ .atMostOnce
  | .acked ack => task = .handleMessageAck ack
  | .announced topic nodeId subscribed =>
    task = if subscribed then .handleRemoteSubscription topic nodeId
      else .handleRemoteUnsubscribe topic nodeId
  | .acknowledged message subscribers => task = .handleBrokerMessage message ∧
      message.deliveryGuarantee ≠ .atMostOnce ∧
      subscribers = b.broker.subscribersOf message.topic
  | .handed subscriber message => ∃ remaining,
      task = .handRemote message (subscriber :: remaining) ∨
        ∃ call, task = .handLocally call message (subscriber :: remaining)
  | .sent targets (.brokerMessage message) => task = .distribute message targets
  | .sent targets (.brokerAck ack) => ∃ message, task = .handleBrokerMessage message ∧
      targets = {message.sourceNode} ∧ ack.messageId = message.id ∧
      ack.nodeId = b.broker.localNodeId
  | .sent _ _ => True
  | .resent targets message => ∃ plan r, task = .retransmit plan ∧ r ∈ plan.retry ∧
      message = r.1 ∧ targets = r.2.1 \ r.2.2

theorem origin_of_mem {b : NetworkBroker} {k : ℕ} {clock : ClockReading} {sendOk : Bool}
    {task : Task} {e : BrokerEvent} (h : e ∈ (b.advance k clock sendOk task).2.2) :
    b.Origin task e := by
  cases task with
  | publish call =>
      cases hp : call.payload with
      | none =>
          simp only [advance, hp, List.mem_cons, List.not_mem_nil, or_false] at h
          obtain rfl | rfl := h
          · exact ⟨rfl, rfl⟩
          · exact Or.inl ⟨call, rfl, hp, rfl⟩
      | some payload =>
          simp only [advance, hp, List.mem_singleton] at h
          subst h
          exact ⟨rfl, rfl⟩
  | handLocally call message remaining =>
      cases remaining with
      | nil => simp [advance] at h
      | cons subscriber remaining =>
          obtain rfl := List.mem_singleton.mp h
          exact ⟨remaining, Or.inr ⟨call, rfl⟩⟩
  | findTargets call =>
      simp only [advance] at h
      split_ifs at h with hempty
      · simp only [List.mem_cons, List.not_mem_nil, or_false] at h
        obtain rfl | rfl := h
        · exact ⟨rfl, rfl⟩
        · exact Or.inr (Or.inl ⟨call, rfl, hempty, rfl⟩)
      · obtain rfl := List.mem_singleton.mp h
        exact ⟨rfl, rfl⟩
  | resequence call targets =>
      cases hp : call.payload with
      | none =>
          simp only [advance, hp, List.mem_singleton] at h
          subst h
          exact Or.inr (Or.inr (Or.inl ⟨call, targets, rfl, hp, rfl⟩))
      | some payload => simp [advance, hp] at h
  | track message targets =>
      simp only [advance, List.mem_ite_nil_left, List.mem_singleton] at h
      obtain ⟨hmost, rfl⟩ := h
      exact ⟨message, rfl, rfl, hmost⟩
  | distribute message targets =>
      simp only [advance, List.mem_cons, List.not_mem_nil, or_false] at h
      obtain rfl | rfl := h
      · rfl
      · exact Or.inr (Or.inr (Or.inr ⟨message, targets, rfl, rfl⟩))
  | subscribe topic options remote =>
      simp only [advance] at h
      split_ifs at h <;> simp at h
  | announceSubscribe topic options nodes =>
      obtain rfl := List.mem_singleton.mp h
      trivial
  | announceUnsubscribe topic =>
      obtain rfl := List.mem_singleton.mp h
      trivial
  | handleRemoteSubscription topic nodeId =>
      obtain rfl := List.mem_singleton.mp h
      rfl
  | handleRemoteUnsubscribe topic nodeId =>
      obtain rfl := List.mem_singleton.mp h
      rfl
  | handleMessageAck ack =>
      obtain rfl := List.mem_singleton.mp h
      rfl
  | handleBrokerMessage message =>
      simp only [advance] at h
      split_ifs at h with hmost
      · simp at h
      · simp only [List.mem_cons, List.not_mem_nil, or_false] at h
        obtain rfl | rfl := h
        · exact ⟨rfl, hmost, rfl⟩
        · exact ⟨message, rfl, rfl, rfl, rfl⟩
      · simp at h
  | handleRemoteMessage message =>
      cases hd : b.broker.deduplicate message clock.instant <;> simp [advance, hd] at h
  | handRemote message remaining =>
      cases remaining with
      | nil => simp [advance] at h
      | cons subscriber remaining =>
          obtain rfl := List.mem_singleton.mp h
          exact ⟨remaining, Or.inl rfl⟩
  | retransmit plan =>
      obtain ⟨r, hr, rfl⟩ := List.mem_map.mp h
      exact ⟨plan, r, rfl, hr, rfl, rfl⟩
  | _ => simp [advance] at h

/-- A retry pass neither adds a pending message nor changes its message, its targets or the nodes
that have acknowledged it. -/
def Keeps (pending pending' : ExtTreeMap Uuid PendingMessage compare) : Prop :=
  ∀ (id : Uuid) (p' : PendingMessage), pending'[id]? = some p' → ∃ p, pending[id]? = some p ∧
    p'.message = p.message ∧ p'.ackedBy = p.ackedBy ∧ p'.targetNodes = p.targetNodes

theorem Keeps.refl (pending : ExtTreeMap Uuid PendingMessage compare) : Keeps pending pending :=
  fun _ p hp => ⟨p, hp, rfl, rfl, rfl⟩

theorem Keeps.trans {pending pending' pending'' : ExtTreeMap Uuid PendingMessage compare}
    (h : Keeps pending pending') (h' : Keeps pending' pending'') : Keeps pending pending'' := by
  intro id p'' hp''
  obtain ⟨p', hp', hmessage', hacked', htargets'⟩ := h' id p'' hp''
  obtain ⟨p, hp, hmessage, hacked, htargets⟩ := h id p' hp'
  exact ⟨p, hp, hmessage'.trans hmessage, hacked'.trans hacked, htargets'.trans htargets⟩

theorem keeps_foldl {β : Type*} {f : ExtTreeMap Uuid PendingMessage compare → β →
    ExtTreeMap Uuid PendingMessage compare} (hf : ∀ pending x, Keeps pending (f pending x))
    (xs : List β) (pending : ExtTreeMap Uuid PendingMessage compare) :
    Keeps pending (xs.foldl f pending) := by
  induction xs generalizing pending with
  | nil => exact Keeps.refl pending
  | cons x xs ih => exact (hf pending x).trans (ih (f pending x))

theorem keeps_updateRetry (now : ℕ) (pending : ExtTreeMap Uuid PendingMessage compare)
    (update : Uuid × UInt8) : Keeps pending (updateRetry now pending update) := by
  intro id p' hp'
  unfold updateRetry at hp'
  cases hold : pending[update.1]? with
  | none =>
      rw [hold] at hp'
      exact ⟨p', hp', rfl, rfl, rfl⟩
  | some msg =>
      rw [hold] at hp'
      simp only [ExtTreeMap.getElem?_insert, Std.compare_eq_iff_eq] at hp'
      split_ifs at hp' with hid
      · subst hid
        rw [← Option.some.inj hp']
        exact ⟨msg, hold, rfl, rfl, rfl⟩
      · exact ⟨p', hp', rfl, rfl, rfl⟩

theorem keeps_updateRetries (b : NetworkBroker) (plan : RetryPlan) :
    Keeps b.pendingMessages (b.updateRetries plan).pendingMessages :=
  keeps_foldl (keeps_updateRetry plan.now) plan.update b.pendingMessages

theorem keeps_removeExpired (b : NetworkBroker) (plan : RetryPlan) :
    Keeps b.pendingMessages (b.removeExpired plan).pendingMessages := by
  refine keeps_foldl (fun pending id' id p' hp' => ?_) plan.remove b.pendingMessages
  rw [ExtTreeMap.getElem?_erase] at hp'
  split_ifs at hp'
  exact ⟨p', hp', rfl, rfl, rfl⟩

end NetworkBroker

/-! ## Tasks of one node -/

/-- The locks that are held across critical sections. -/
inductive BrokerLock
  | counters
  | transport
  | subscriptions
  deriving DecidableEq

/-- What a task still holds. Readers hold `subscriptions` while they hand a message on. -/
def Task.holds : Task → List BrokerLock
  | .track _ _ => [.counters]
  | .distribute _ _ => [.counters, .transport]
  | .handLocally _ _ _ => [.subscriptions]
  | .handRemote _ _ => [.subscriptions]
  | _ => []

/-- What nobody else may hold when the next critical section of a task starts. -/
def Task.needs : Task → List BrokerLock
  | .publish _ => [.counters]
  | .resequence _ _ => [.counters]
  | .track _ _ => [.transport]
  | .announceSubscribe _ _ _ => [.transport]
  | .announceUnsubscribe _ => [.transport]
  | .handleBrokerMessage message =>
    if message.deliveryGuarantee = .atMostOnce then [] else [.transport]
  | .retransmit _ => [.transport]
  | .subscribe _ _ _ => [.subscriptions]
  | .unsubscribe _ _ => [.subscriptions]
  | _ => []

/-- The methods that can be called. -/
def Task.isCall : Task → Bool
  | .publish _ => true
  | .subscribe _ _ _ => true
  | .unsubscribe _ _ => true
  | .handleRemoteSubscription _ _ => true
  | .handleRemoteUnsubscribe _ _ => true
  | .handleMessageAck _ => true
  | .handleBrokerMessage _ => true
  | .processPendingMessages => true
  | .cleanDeduplicationCache _ => true
  | _ => false

structure BrokerNode where
  network : NetworkBroker
  tasks : List Task
  log : List BrokerEvent

inductive BrokerAction
  | call (task : Task)
  | advance (k : ℕ) (clock : ClockReading) (sendOk : Bool)
  | membership (nodes : ExtTreeMap NodeId NodeInfo compare)

namespace BrokerNode

def new (localNodeId : NodeId) (nodes : ExtTreeMap NodeId NodeInfo compare) : BrokerNode :=
  ⟨.new localNodeId nodes, [], []⟩

def callEvents : Task → List BrokerEvent
  | .publish call => [.started call]
  | _ => []

theorem mem_callEvents {task : Task} {e : BrokerEvent} (h : e ∈ callEvents task) :
    ∃ call, task = .publish call ∧ e = .started call := by
  cases task with
  | publish call => exact ⟨call, rfl, List.mem_singleton.mp h⟩
  | _ => simp [callEvents] at h

def call (n : BrokerNode) (task : Task) : BrokerNode :=
  { n with tasks := n.tasks ++ [task], log := n.log ++ callEvents task }

def advance (n : BrokerNode) (k : ℕ) (clock : ClockReading) (sendOk : Bool) : BrokerNode :=
  match n.tasks[k]? with
  | none => n
  | some task =>
    let (network, task, events) := n.network.advance k clock sendOk task
    ⟨network, n.tasks.set k task, n.log ++ events⟩

def step (n : BrokerNode) : BrokerAction → BrokerNode
  | .call task => n.call task
  | .advance k clock sendOk => n.advance k clock sendOk
  | .membership nodes => { n with network := { n.network with nodes := nodes } }

/-- No other task holds what the task needs. -/
def LockFree (n : BrokerNode) (k : ℕ) (task : Task) : Prop :=
  ∀ other ∈ n.tasks.zipIdx, other.2 ≠ k → ∀ lock ∈ task.needs, lock ∉ other.1.holds

def Enabled (n : BrokerNode) : BrokerAction → Prop
  | .call task => task.isCall = true
  | .advance k _ _ => ∀ task ∈ n.tasks[k]?, n.LockFree k task
  | .membership _ => True

instance decidableEnabled (n : BrokerNode) (a : BrokerAction) : Decidable (n.Enabled a) :=
  match a with
  | .call task => inferInstanceAs (Decidable (task.isCall = true))
  | .advance k _ _ => inferInstanceAs (Decidable (∀ task ∈ n.tasks[k]?,
      ∀ other ∈ n.tasks.zipIdx, other.2 ≠ k → ∀ lock ∈ task.needs, lock ∉ other.1.holds))
  | .membership _ => inferInstanceAs (Decidable True)

theorem advance_eq {n : BrokerNode} {k : ℕ} {task : Task} (h : n.tasks[k]? = some task)
    (clock : ClockReading) (sendOk : Bool) : n.advance k clock sendOk =
      ⟨(n.network.advance k clock sendOk task).1,
        n.tasks.set k (n.network.advance k clock sendOk task).2.1,
        n.log ++ (n.network.advance k clock sendOk task).2.2⟩ := by
  simp only [advance, h]

/-- What holds of every task still holds when one of them goes on. -/
theorem forall_tasks_set {n : BrokerNode} {P : Task → Prop} (h : ∀ task ∈ n.tasks, P task) (k : ℕ)
    {task : Task} (htask : P task) : ∀ t ∈ n.tasks.set k task, P t := by
  intro t ht
  rcases List.mem_or_eq_of_mem_set ht with hold | rfl
  · exact h t hold
  · exact htask

/-- What holds of some task still holds of one, unless it was the task that goes on. -/
theorem exists_tasks_set {n : BrokerNode} {P : Task → Prop} (h : ∃ task ∈ n.tasks, P task) {k : ℕ}
    {task : Task} (htask : n.tasks[k]? = some task) (task' : Task) :
    P task ∨ ∃ t ∈ n.tasks.set k task', P t := by
  obtain ⟨t, ht, hP⟩ := h
  obtain ⟨j, hj⟩ := List.getElem?_of_mem ht
  by_cases hjk : j = k
  · rw [hjk, htask, Option.some.injEq] at hj
    exact Or.inl (hj ▸ hP)
  · refine Or.inr ⟨t, List.mem_of_getElem? (i := j) ?_, hP⟩
    rw [List.getElem?_set_ne (Ne.symm hjk)]
    exact hj

theorem mem_tasks_set {n : BrokerNode} {k : ℕ} {task : Task} (htask : n.tasks[k]? = some task)
    (task' : Task) : task' ∈ n.tasks.set k task' :=
  List.mem_set ((List.getElem?_eq_some_iff.mp htask).1) task'

theorem advance_of_none {n : BrokerNode} {k : ℕ} (h : n.tasks[k]? = none) (clock : ClockReading)
    (sendOk : Bool) : n.advance k clock sendOk = n := by
  simp only [advance, h]

/-- The invariant rule for nodes: it is enough to look at calls, at new maps of nodes and at one
critical section of one task. -/
theorem invariant_run {I : BrokerNode → Prop} {ok : BrokerNode → BrokerAction → Prop}
    (hcall : ∀ n task, I n → ok n (.call task) → I (n.call task))
    (hmembership : ∀ n nodes, I n → I { n with network := { n.network with nodes := nodes } })
    (hadvance : ∀ n k task clock sendOk, I n → n.tasks[k]? = some task →
      ok n (.advance k clock sendOk) → I (n.advance k clock sendOk))
    {n : BrokerNode} {as : List BrokerAction} (hn : I n) (has : Runs.Admissible step ok n as) :
    I (Runs.run step n as) := by
  refine Runs.invariant_run (fun n a hI hok => ?_) hn has
  cases a with
  | call task => exact hcall n task hI hok
  | membership nodes => exact hmembership n nodes hI
  | advance k clock sendOk =>
      cases htask : n.tasks[k]? with
      | none =>
          change I (n.advance k clock sendOk)
          rw [advance_of_none htask]
          exact hI
      | some task => exact hadvance n k task clock sendOk hI htask hok

end BrokerNode

end ActixPura
