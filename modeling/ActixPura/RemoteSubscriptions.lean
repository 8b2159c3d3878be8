import ActixPura.BrokerCopies

/-!
# Remote targets of a publication

The table `remote_subscriptions` says to which nodes a topic is published. It is written by the
announcements of these nodes, and also by `subscribe` when a local actor asks for remote messages:
all other known nodes are then entered, although none of them has asked for anything.

A run keeps the table equal to what was announced exactly when no such call finds a node that is not
in the table already.
-/

namespace ActixPura

open Runs

def announcement (topic : String) (nodeId : NodeId) : BrokerEvent → Option Bool
  | .announced topic' nodeId' subscribed =>
    if topic' = topic ∧ nodeId' = nodeId then some subscribed else none
  | _ => none

/-- Whether the last announcement of the node for the topic was a subscription. -/
def lastAnnouncement (topic : String) (nodeId : NodeId) (log : List BrokerEvent) : Option Bool :=
  (log.filterMap (announcement topic nodeId)).getLast?

theorem lastAnnouncement_append (topic : String) (nodeId : NodeId) (log events : List BrokerEvent) :
    lastAnnouncement topic nodeId (log ++ events) =
      (events.filterMap (announcement topic nodeId)).getLast?.or
        (lastAnnouncement topic nodeId log) := by
  rw [lastAnnouncement, List.filterMap_append, List.getLast?_append]
  rfl

theorem announcements_eq_nil {topic : String} {nodeId : NodeId} {b : NetworkBroker} {k : ℕ}
    {clock : ClockReading} {sendOk : Bool} {task : Task}
    (hsubscription : ∀ topic nodeId, task ≠ .handleRemoteSubscription topic nodeId)
    (hunsubscribe : ∀ topic nodeId, task ≠ .handleRemoteUnsubscribe topic nodeId) :
    (b.advance k clock sendOk task).2.2.filterMap (announcement topic nodeId) = [] := by
  refine List.filterMap_eq_nil_iff.mpr fun e he => ?_
  have horigin := NetworkBroker.origin_of_mem he
  cases e with
  | announced topic' nodeId' subscribed =>
      cases subscribed with
      | false => exact absurd horigin (hunsubscribe topic' nodeId')
      | true => exact absurd horigin (hsubscription topic' nodeId')
  | _ => rfl

theorem announcements_advance (topic : String) (nodeId : NodeId) (b : NetworkBroker) (k : ℕ)
    (clock : ClockReading) (sendOk : Bool) (task : Task) :
    (b.advance k clock sendOk task).2.2.filterMap (announcement topic nodeId) =
      match task with
      | .handleRemoteSubscription topic' nodeId' =>
        if topic' = topic ∧ nodeId' = nodeId then [true] else []
      | .handleRemoteUnsubscribe topic' nodeId' =>
        if topic' = topic ∧ nodeId' = nodeId then [false] else []
      | _ => [] := by
  cases task with
  | handleRemoteSubscription topic' nodeId' =>
      simp only [NetworkBroker.advance, List.filterMap_cons, announcement]
      split_ifs <;> rfl
  | handleRemoteUnsubscribe topic' nodeId' =>
      simp only [NetworkBroker.advance, List.filterMap_cons, announcement]
      split_ifs <;> rfl
  | _ => exact announcements_eq_nil (fun _ _ => Task.noConfusion) fun _ _ => Task.noConfusion

namespace NetworkBroker

variable (b : NetworkBroker)

theorem remoteNodes_subscribeRemote (topic topic' : String) (nodes : List NodeId) :
    (b.subscribeRemote topic' nodes).remoteNodes topic =
      if topic' = topic then
        b.remoteNodes topic ∪ (nodes.filter (· ≠ b.broker.localNodeId)).toFinset
      else b.remoteNodes topic := by
  simp only [subscribeRemote, remoteNodes, Std.ExtTreeMap.getD_insert, Std.compare_eq_iff_eq]
  split_ifs with h
  · rw [h]
  · rfl

theorem remoteNodes_handleRemoteSubscription (topic topic' : String) (nodeId : NodeId) :
    (b.handleRemoteSubscription topic' nodeId).remoteNodes topic =
      if topic' = topic then insert nodeId (b.remoteNodes topic) else b.remoteNodes topic := by
  simp only [handleRemoteSubscription, remoteNodes, Std.ExtTreeMap.getD_insert,
    Std.compare_eq_iff_eq]
  split_ifs with h
  · rw [h]
  · rfl

theorem remoteNodes_handleRemoteUnsubscribe (topic topic' : String) (nodeId : NodeId) :
    (b.handleRemoteUnsubscribe topic' nodeId).remoteNodes topic =
      if topic' = topic then (b.remoteNodes topic).erase nodeId else b.remoteNodes topic := by
  unfold handleRemoteUnsubscribe remoteNodes
  by_cases h : topic' = topic
  · subst h
    rw [if_pos rfl]
    cases hold : b.remoteSubscriptions[topic']? with
    | none => simp [Std.ExtTreeMap.getD_eq_getD_getElem?, hold]
    | some subscribers =>
        by_cases hempty : subscribers.erase nodeId = ∅
        · simp [Std.ExtTreeMap.getD_eq_getD_getElem?, hold, hempty]
        · simp [Std.ExtTreeMap.getD_eq_getD_getElem?, hold, hempty]
  · rw [if_neg h]
    cases hold : b.remoteSubscriptions[topic']? with
    | none => rfl
    | some subscribers =>
        by_cases hempty : subscribers.erase nodeId = ∅
        · simp [Std.ExtTreeMap.getD_erase, hempty, h]
        · simp [Std.ExtTreeMap.getD_insert, hempty, h]

end NetworkBroker

/-- The steps of a local actor's call of `subscribe` or `unsubscribe`. -/
def Task.isSubscription : Task → Bool
  | .subscribe _ _ _ => true
  | .listNodes _ _ => true
  | .subscribeRemote _ _ _ => true
  | .announceSubscribe _ _ _ => true
  | .unsubscribe _ _ => true
  | .announceUnsubscribe _ => true
  | _ => false

/-! ## What is published -/

/-- A publication that goes on to remote nodes was routed to them. -/
def Task.Routed (log : List BrokerEvent) : Task → Prop
  | .publishLocally call _ => call.payload ≠ none
  | .handLocally call _ _ => call.payload ≠ none
  | .findTargets call => call.payload ≠ none
  | .resequence call targets => call.payload ≠ none ∧ .routed call targets ∈ log
  | .track message targets => ∃ call, call.Made message ∧ .routed call targets ∈ log
  | .distribute message targets => ∃ call, call.Made message ∧ .routed call targets ∈ log
  | _ => True

def Task.Carries (call : PublishCall) (targets : Finset NodeId) : Task → Prop
  | .resequence call' targets' => call' = call ∧ targets' = targets
  | .track message targets' => call.Made message ∧ targets' = targets
  | .distribute message targets' => call.Made message ∧ targets' = targets
  | _ => False

theorem Task.Routed.append {log : List BrokerEvent} {task : Task} (h : task.Routed log)
    (events : List BrokerEvent) : task.Routed (log ++ events) := by
  cases task with
  | resequence call targets => exact ⟨h.1, List.mem_append_left _ h.2⟩
  | track message targets =>
      obtain ⟨call, hmade, hrouted⟩ := h
      exact ⟨call, hmade, List.mem_append_left _ hrouted⟩
  | distribute message targets =>
      obtain ⟨call, hmade, hrouted⟩ := h
      exact ⟨call, hmade, List.mem_append_left _ hrouted⟩
  | publishLocally call message => exact h
  | handLocally call message remaining => exact h
  | findTargets call => exact h
  | _ => trivial

namespace NetworkBroker

variable (b : NetworkBroker) (k : ℕ) (clock : ClockReading) (sendOk : Bool) {task : Task}

theorem remoteNodes_advance (topic : String) :
    (b.advance k clock sendOk task).1.remoteNodes topic =
      match task with
      | .subscribeRemote topic' _ nodes => (b.subscribeRemote topic' nodes).remoteNodes topic
      | .handleRemoteSubscription topic' nodeId =>
        (b.handleRemoteSubscription topic' nodeId).remoteNodes topic
      | .handleRemoteUnsubscribe topic' nodeId =>
        (b.handleRemoteUnsubscribe topic' nodeId).remoteNodes topic
      | _ => b.remoteNodes topic := by
  rw [advance_network]
  cases task with
  | _ => rfl

theorem routed_next {b : NetworkBroker} {clock : ClockReading} {task task' : Task}
    {events log : List BrokerEvent} (hnext : b.Next clock task task' events)
    (h : task.Routed log) : task'.Routed (log ++ events) := by
  cases hnext with
  | publish hp => exact fun hnone => by simp [hp] at hnone
  | publishLocally => exact h
  | handedLocally => exact h
  | handLocally => exact h
  | findTargets _ => exact ⟨h, List.mem_append_right _ List.mem_cons_self⟩
  | resequence hp => exact ⟨_, ⟨rfl, hp, rfl, rfl⟩, List.mem_append_left _ h.2⟩
  | track => exact Task.Routed.append h _
  | _ => trivial

theorem findTargets_events (call : PublishCall) : ∃ rest,
    (b.advance k clock sendOk (.findTargets call)).2.2 =
      .routed call (b.remoteNodes call.topic) :: rest ∧ ∀ e ∈ rest, e = .returned call.id := by
  simp only [advance]
  split_ifs
  · exact ⟨_, rfl, fun e he => List.mem_singleton.mp he⟩
  · exact ⟨[], rfl, fun e he => by simp at he⟩

/-- A publication is carried on until it has been sent. -/
theorem carries_advance {log : List BrokerEvent} (h : task.Routed log) {call : PublishCall}
    {targets : Finset NodeId} (hcarries : task.Carries call targets) :
    (b.advance k clock sendOk task).2.1.Carries call targets ∨ ∃ message, call.Made message ∧
      .sent targets (.brokerMessage message) ∈ (b.advance k clock sendOk task).2.2 := by
  cases task with
  | resequence call' targets' =>
      obtain ⟨rfl, rfl⟩ := hcarries
      cases hp : call'.payload with
      | none => exact absurd hp h.1
      | some payload =>
          simp only [advance, hp]
          exact Or.inl ⟨⟨rfl, hp, rfl, rfl⟩, rfl⟩
  | track message targets' => exact Or.inl hcarries
  | distribute message targets' =>
      obtain ⟨hmade, rfl⟩ := hcarries
      exact Or.inr ⟨message, hmade, List.mem_cons_self⟩
  | _ => exact hcarries.elim

end NetworkBroker

namespace BrokerNode

variable {n : BrokerNode}

/-- Publications and what was sent for them: what was sent was routed, and what was routed to some
node is sent or still under way. -/
structure SendsRouted (n : BrokerNode) : Prop where
  routed : ∀ task ∈ n.tasks, task.Routed n.log
  sent : ∀ targets message, .sent targets (.brokerMessage message) ∈ n.log →
    ∃ call, call.Made message ∧ .routed call targets ∈ n.log
  carried : ∀ call targets, .routed call targets ∈ n.log → targets ≠ ∅ →
    (∃ task ∈ n.tasks, task.Carries call targets) ∨
      ∃ message, call.Made message ∧ .sent targets (.brokerMessage message) ∈ n.log

theorem sendsRouted_call (h : n.SendsRouted) {task : Task} (htask : task.isCall = true) :
    (n.call task).SendsRouted := by
  have hrouted : task.Routed (n.log ++ callEvents task) := by
    cases task with
    | _ => trivial
  have hevents {e : BrokerEvent} (he : e ∈ n.log ++ callEvents task)
      (hstarted : ∀ call, e ≠ .started call) : e ∈ n.log := by
    rcases List.mem_append.mp he with hold | hnew
    · exact hold
    · obtain ⟨call, -, he⟩ := mem_callEvents hnew
      exact absurd he (hstarted call)
  refine ⟨fun t ht => ?_, fun targets message hsent => ?_, fun call targets hmem hne => ?_⟩
  · rcases List.mem_append.mp ht with hold | hnew
    · exact (h.routed t hold).append _
    · obtain rfl := List.mem_singleton.mp hnew
      exact hrouted
  · obtain ⟨call, hmade, hmem⟩ := h.sent targets message (hevents hsent fun _ => by simp)
    exact ⟨call, hmade, List.mem_append_left _ hmem⟩
  · rcases h.carried call targets (hevents hmem fun _ => by simp) hne with
      ⟨t, ht, hcarries⟩ | ⟨message, hmade, hsent⟩
    · exact Or.inl ⟨t, List.mem_append_left _ ht, hcarries⟩
    · exact Or.inr ⟨message, hmade, List.mem_append_left _ hsent⟩

theorem sendsRouted_advance (h : n.SendsRouted) {k : ℕ} {task : Task}
    (htask : n.tasks[k]? = some task) (clock : ClockReading) (sendOk : Bool) :
    (n.advance k clock sendOk).SendsRouted := by
  rw [advance_eq htask]
  have hrouted := h.routed task (List.mem_of_getElem? htask)
  refine ⟨forall_tasks_set (fun t ht => (h.routed t ht).append _) k
    (NetworkBroker.routed_next (n.network.next_advance k clock sendOk task) hrouted),
    fun targets message hsent => ?_, fun call targets hmem hne => ?_⟩
  · rcases List.mem_append.mp hsent with hold | hnew
    · obtain ⟨call, hmade, hmem⟩ := h.sent targets message hold
      exact ⟨call, hmade, List.mem_append_left _ hmem⟩
    · obtain rfl : task = .distribute message targets := NetworkBroker.origin_of_mem hnew
      obtain ⟨call, hmade, hmem⟩ := hrouted
      exact ⟨call, hmade, List.mem_append_left _ hmem⟩
  · rcases List.mem_append.mp hmem with hold | hnew
    · rcases h.carried call targets hold hne with hcarries | ⟨message, hmade, hsent⟩
      · rcases exists_tasks_set hcarries htask (n.network.advance k clock sendOk task).2.1 with
          hthis | hother
        · rcases n.network.carries_advance k clock sendOk hrouted hthis with
            hstill | ⟨message, hmade, hsent⟩
          · exact Or.inl ⟨_, mem_tasks_set htask _, hstill⟩
          · exact Or.inr ⟨message, hmade, List.mem_append_right _ hsent⟩
        · exact Or.inl hother
      · exact Or.inr ⟨message, hmade, List.mem_append_left _ hsent⟩
    · obtain ⟨rfl, rfl⟩ := NetworkBroker.origin_of_mem hnew
      refine Or.inl ⟨_, mem_tasks_set htask _, ?_⟩
      simp only [NetworkBroker.advance, if_neg hne]
      exact ⟨rfl, rfl⟩

theorem sendsRouted_run {localNodeId : NodeId} {nodes : Std.ExtTreeMap NodeId NodeInfo compare}
    {as : List BrokerAction} (has : Admissible step Enabled (new localNodeId nodes) as) :
    (run step (new localNodeId nodes) as).SendsRouted :=
  invariant_run (I := SendsRouted) (fun _ _ h hcall => sendsRouted_call h hcall)
    (fun _ _ h => ⟨h.routed, h.sent, h.carried⟩)
    (fun _ _ _ clock sendOk h htask _ => sendsRouted_advance h htask clock sendOk)
    ⟨fun _ ht => by simp [new] at ht, fun _ _ hs => by simp [new] at hs,
      fun _ _ hr => by simp [new] at hr⟩ has

/-! ## The table against the announcements -/

/-- The table of remote subscriptions is what was announced. -/
def TableAccurate (n : BrokerNode) : Prop :=
  ∀ topic nodeId, nodeId ∈ n.network.remoteNodes topic ↔
    lastAnnouncement topic nodeId n.log = some true

/-- Every publication was routed to the nodes whose last announcement before was a subscription. -/
def RoutedAccurate (n : BrokerNode) : Prop :=
  ∀ before call targets after, n.log = before ++ .routed call targets :: after →
    ∀ nodeId, nodeId ∈ targets ↔ lastAnnouncement call.topic nodeId before = some true

/-- A step of a local actor's call leaves the remote targets of every topic. -/
def LocalKeeps (n : BrokerNode) : BrokerAction → Prop
  | .advance k clock sendOk => ∀ task, n.tasks[k]? = some task → task.isSubscription = true →
      ∀ topic, (n.advance k clock sendOk).network.remoteNodes topic = n.network.remoteNodes topic
  | _ => True

/-- The nodes that a local subscription is about to enter for a topic. -/
def entering (n : BrokerNode) (k : ℕ) : Option (String × List NodeId) :=
  match n.tasks[k]? with
  | some (.subscribeRemote topic _ nodes) => some (topic, nodes)
  | _ => none

/-- A local subscription finds all other known nodes in the table already. -/
def NothingAdded (n : BrokerNode) : BrokerAction → Prop
  | .advance k _ _ => ∀ e ∈ n.entering k, ∀ nodeId ∈ e.2,
      nodeId ≠ n.network.broker.localNodeId → nodeId ∈ n.network.remoteNodes e.1
  | _ => True

theorem entering_eq_some {k : ℕ} {topic : String} {nodes : List NodeId} :
    n.entering k = some (topic, nodes) ↔
      ∃ options, n.tasks[k]? = some (.subscribeRemote topic options nodes) := by
  unfold entering
  split
  · rename_i topic' options nodes' htask
    rw [htask]
    simp
  · rename_i hnot
    exact ⟨fun h => by simp at h, fun ⟨options, h⟩ => absurd h (hnot topic options nodes)⟩

theorem nothingAdded_iff_localKeeps (a : BrokerAction) : n.NothingAdded a ↔ n.LocalKeeps a := by
  cases a with
  | call task => exact Iff.rfl
  | membership nodes => exact Iff.rfl
  | advance k clock sendOk =>
      constructor
      · intro h task htask hlocal topic
        rw [advance_eq htask]
        change (n.network.advance k clock sendOk task).1.remoteNodes topic = _
        rw [NetworkBroker.remoteNodes_advance]
        cases task with
        | subscribeRemote topic' options nodes =>
            have hadded := h (topic', nodes) (entering_eq_some.mpr ⟨options, htask⟩)
            simp only [NetworkBroker.remoteNodes_subscribeRemote]
            split_ifs with htopic
            · subst htopic
              refine Finset.union_eq_left.mpr fun nodeId hnode => ?_
              simp only [List.mem_toFinset, List.mem_filter, decide_eq_true_eq] at hnode
              exact hadded nodeId hnode.1 hnode.2
            · rfl
        | handleRemoteSubscription topic' nodeId => simp [Task.isSubscription] at hlocal
        | handleRemoteUnsubscribe topic' nodeId => simp [Task.isSubscription] at hlocal
        | _ => rfl
      · rintro h ⟨topic, nodes⟩ hentering nodeId hnode hother
        obtain ⟨options, htask⟩ := entering_eq_some.mp hentering
        have hkeeps := h _ htask rfl topic
        rw [advance_eq htask] at hkeeps
        change (n.network.subscribeRemote topic nodes).remoteNodes topic = _ at hkeeps
        rw [NetworkBroker.remoteNodes_subscribeRemote, if_pos rfl] at hkeeps
        exact Finset.union_eq_left.mp hkeeps (by simp [hnode, hother])

theorem lastAnnouncement_call (task : Task) (topic : String) (nodeId : NodeId) :
    lastAnnouncement topic nodeId (n.call task).log = lastAnnouncement topic nodeId n.log := by
  change lastAnnouncement topic nodeId (n.log ++ callEvents task) = _
  rw [lastAnnouncement_append]
  cases task with
  | _ => rfl

theorem tableAccurate_advance (h : n.TableAccurate) {k : ℕ} {task : Task}
    (htask : n.tasks[k]? = some task) (clock : ClockReading) (sendOk : Bool)
    (hadded : n.NothingAdded (.advance k clock sendOk)) :
    (n.advance k clock sendOk).TableAccurate := by
  have hkeeps := (nothingAdded_iff_localKeeps _).mp hadded task htask
  rw [advance_eq htask] at hkeeps ⊢
  intro topic nodeId
  change nodeId ∈ (n.network.advance k clock sendOk task).1.remoteNodes topic ↔
    lastAnnouncement topic nodeId (n.log ++ (n.network.advance k clock sendOk task).2.2) = some true
  rw [lastAnnouncement_append, announcements_advance]
  cases task with
  | handleRemoteSubscription topic' nodeId' =>
      rw [NetworkBroker.remoteNodes_advance]
      simp only [NetworkBroker.remoteNodes_handleRemoteSubscription]
      by_cases htopic : topic' = topic
      · by_cases hnode : nodeId' = nodeId
        · simp [htopic, hnode]
        · simp [htopic, hnode, Ne.symm hnode, h topic nodeId]
      · simp [htopic, h topic nodeId]
  | handleRemoteUnsubscribe topic' nodeId' =>
      rw [NetworkBroker.remoteNodes_advance]
      simp only [NetworkBroker.remoteNodes_handleRemoteUnsubscribe]
      by_cases htopic : topic' = topic
      · by_cases hnode : nodeId' = nodeId
        · simp [htopic, hnode]
        · simp [htopic, hnode, Ne.symm hnode, h topic nodeId]
      · simp [htopic, h topic nodeId]
  | subscribeRemote topic' options nodes =>
      rw [hkeeps rfl topic]
      exact h topic nodeId
  | _ =>
      rw [NetworkBroker.remoteNodes_advance]
      exact h topic nodeId

theorem routedAccurate_advance (h : n.RoutedAccurate) (htable : n.TableAccurate) {k : ℕ}
    {task : Task} (htask : n.tasks[k]? = some task) (clock : ClockReading) (sendOk : Bool) :
    (n.advance k clock sendOk).RoutedAccurate := by
  rw [advance_eq htask]
  intro before call targets after hlog
  rcases split_append hlog with ⟨after', hold⟩ | ⟨between, hbefore, hevents⟩
  · exact h before call targets after' hold
  · have hmem : .routed call targets ∈ (n.network.advance k clock sendOk task).2.2 := by
      rw [hevents]
      exact List.mem_append_right _ List.mem_cons_self
    obtain ⟨rfl, rfl⟩ := NetworkBroker.origin_of_mem hmem
    cases between with
    | nil =>
        rw [hbefore, List.append_nil]
        exact htable call.topic
    | cons e between =>
        obtain ⟨rest, hfirst, hrest⟩ := n.network.findTargets_events k clock sendOk call
        obtain ⟨-, rfl⟩ := List.cons.inj (hfirst.symm.trans hevents)
        have hreturned := hrest _ (List.mem_append_right between List.mem_cons_self)
        simp at hreturned

theorem accurate_run {localNodeId : NodeId} {nodes : Std.ExtTreeMap NodeId NodeInfo compare}
    {as : List BrokerAction} (has : Admissible step NothingAdded (new localNodeId nodes) as) :
    (run step (new localNodeId nodes) as).TableAccurate ∧
      (run step (new localNodeId nodes) as).RoutedAccurate := by
  refine invariant_run (I := fun n => n.TableAccurate ∧ n.RoutedAccurate)
    (fun n task h _ => ⟨fun topic nodeId => ?_, ?_⟩) (fun _ _ h => h)
    (fun _ _ _ clock sendOk h htask hadded => ⟨tableAccurate_advance h.1 htask clock sendOk hadded,
      routedAccurate_advance h.2 h.1 htask clock sendOk⟩) ⟨?_, ?_⟩ has
  · rw [lastAnnouncement_call]
    exact h.1 topic nodeId
  · intro before call targets after hlog
    rcases split_append hlog with ⟨after', hold⟩ | ⟨between, hbefore, hevents⟩
    · exact h.2 before call targets after' hold
    · have hmem : .routed call targets ∈ callEvents task := by
        rw [hevents]
        exact List.mem_append_right _ List.mem_cons_self
      obtain ⟨call', -, hstarted⟩ := mem_callEvents hmem
      simp at hstarted
  · intro topic nodeId
    simp [new, NetworkBroker.new, NetworkBroker.remoteNodes, lastAnnouncement]
  · intro before call targets after hlog
    simp [new] at hlog

instance decidableNothingAdded (n : BrokerNode) (a : BrokerAction) :
    Decidable (n.NothingAdded a) :=
  match a with
  | .call _ => isTrue trivial
  | .membership _ => isTrue trivial
  | .advance k _ _ => decidable_of_iff (∀ e ∈ n.entering k, e.2.all fun nodeId =>
      nodeId ≠ n.network.broker.localNodeId → nodeId ∈ n.network.remoteNodes e.1)
      (by simp only [List.all_eq_true, decide_eq_true_eq]; rfl)

/-- A publication is sent to the nodes that it was routed to. These are the nodes that have
announced a subscription, and local subscriptions leave them alone, exactly when no local
subscription meets a known node that is not in the table. -/
theorem subscription_accuracy (localNodeId : NodeId)
    (nodes : Std.ExtTreeMap NodeId NodeInfo compare) (as : List BrokerAction)
    (has : Admissible step Enabled (new localNodeId nodes) as) :
    (run step (new localNodeId nodes) as).SendsRouted ∧
      (Admissible step LocalKeeps (new localNodeId nodes) as ∧
          (run step (new localNodeId nodes) as).RoutedAccurate ↔
        Admissible step NothingAdded (new localNodeId nodes) as) := by
  refine ⟨sendsRouted_run has, fun h => ?_, fun h => ⟨?_, (accurate_run h).2⟩⟩
  · exact admissible_mono (fun n a => (nothingAdded_iff_localKeeps a).mpr) h.1
  · exact admissible_mono (fun n a => (nothingAdded_iff_localKeeps a).mp) h

/-- Node 1 as node 0 knows it. -/
def knownNode : Std.ExtTreeMap NodeId NodeInfo compare :=
  (∅ : Std.ExtTreeMap NodeId NodeInfo compare).insert 1
    (.new 1 "node1" .peer (.v4 ⟨0x7f000001, 8081⟩))

def subscriptionDefaults : SubscriptionOptions := ⟨.atMostOnce, 100, false, none⟩

/-- A local actor subscribes for remote messages as well. -/
def localSubscription (k : ℕ) : List BrokerAction :=
  [.call (.subscribe "prices" subscriptionDefaults true)] ++
    List.replicate 4 (.advance k ⟨0, 0⟩ true)

def tick : PublishCall := ⟨"prices", some [1], .atMostOnce, 7⟩

def localPublication (k : ℕ) : List BrokerAction :=
  [.call (.publish tick)] ++ List.replicate 8 (.advance k ⟨0, 0⟩ true)

/-- Node 1 subscribes before a local actor does. -/
def announcedFirst : List BrokerAction :=
  [.call (.handleRemoteSubscription "prices" 1), .advance 0 ⟨0, 0⟩ true] ++
    localSubscription 1 ++ localPublication 2

theorem subscription_accuracy_announcedFirst :
    Admissible step LocalKeeps (new 0 knownNode) announcedFirst ∧
      (run step (new 0 knownNode) announcedFirst).RoutedAccurate :=
  (subscription_accuracy 0 knownNode announcedFirst (by decide +kernel)).2.mpr (by decide +kernel)

/-- A local subscription makes a node a target that never subscribed. -/
theorem not_subscription_accuracy : ¬ ∀ (localNodeId : NodeId)
    (nodes : Std.ExtTreeMap NodeId NodeInfo compare) (as : List BrokerAction),
    Admissible step Enabled (new localNodeId nodes) as →
      Admissible step LocalKeeps (new localNodeId nodes) as ∧
        (run step (new localNodeId nodes) as).RoutedAccurate := by
  intro h
  obtain ⟨-, hrouted⟩ := h 0 knownNode (localSubscription 0 ++ localPublication 1)
    (by decide +kernel)
  have hannounced := (hrouted [.sent {1} (.subscribe "prices" subscriptionDefaults), .started tick,
    .numbered tick 1, .handed 0 ⟨"prices", [1], 7, 0, 0, 1, .atMostOnce⟩] tick {1}
    [.sent {1} (.brokerMessage ⟨"prices", [1], 7, 0, 0, 1, .atMostOnce⟩), .returned 7]
    rfl 1).mp (Finset.mem_singleton_self 1)
  revert hannounced
  decide

end BrokerNode

end ActixPura
