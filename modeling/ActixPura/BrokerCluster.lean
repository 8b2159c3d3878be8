import ActixPura.BrokerCopies

/-!
# A cluster of brokers

Every node has its broker, its tasks and its log. The network keeps what was ever sent. A node may
handle a message or an acknowledgement that was sent to it, whenever it likes, as often as it likes
or not at all, so that messages are lost, duplicated and reordered. A node that fails takes no
further step.

The steps of one node in a run of the cluster are a run of this node, and what holds of every run of
a node holds of the nodes of a cluster.
-/

namespace ActixPura

open Runs

structure BrokerCluster where
  nodes : NodeId → BrokerNode
  failed : Finset NodeId
  messages : List (Finset NodeId × BrokerMessage)
  acks : List (Finset NodeId × MessageAck)

inductive ClusterAction
  | node (i : NodeId) (a : BrokerAction)
  | fail (i : NodeId)

/-- The messages that an event puts on the network, with their targets. -/
def BrokerEvent.packets : BrokerEvent → List (Finset NodeId × BrokerMessage)
  | .sent targets (.brokerMessage message) => [(targets, message)]
  | .resent targets message => [(targets, message)]
  | _ => []

def BrokerEvent.ackPackets : BrokerEvent → List (Finset NodeId × MessageAck)
  | .sent targets (.brokerAck ack) => [(targets, ack)]
  | _ => []

def Task.received : Task → Option BrokerMessage
  | .handleBrokerMessage message => some message
  | _ => none

def Task.receivedAck : Task → Option MessageAck
  | .handleMessageAck ack => some ack
  | _ => none

namespace BrokerCluster

def new (membership : NodeId → Std.ExtTreeMap NodeId NodeInfo compare) : BrokerCluster :=
  ⟨fun i => .new i (membership i), ∅, [], []⟩

def step (c : BrokerCluster) : ClusterAction → BrokerCluster
  | .node i a =>
    let n := (c.nodes i).step a
    let events := n.log.drop (c.nodes i).log.length
    { c with
      nodes := Function.update c.nodes i n
      messages := c.messages ++ events.flatMap BrokerEvent.packets
      acks := c.acks ++ events.flatMap BrokerEvent.ackPackets }
  | .fail i => { c with failed := insert i c.failed }

/-- What a node handles was sent to it. -/
def Received (c : BrokerCluster) (i : NodeId) : BrokerAction → Prop
  | .call task => (∀ message ∈ task.received, ∃ p ∈ c.messages, i ∈ p.1 ∧ p.2 = message) ∧
      ∀ ack ∈ task.receivedAck, ∃ p ∈ c.acks, i ∈ p.1 ∧ p.2 = ack
  | _ => True

def Enabled (c : BrokerCluster) : ClusterAction → Prop
  | .node i a => i ∉ c.failed ∧ (c.nodes i).Enabled a ∧ c.Received i a
  | .fail _ => True

instance decidableReceived (c : BrokerCluster) (i : NodeId) (a : BrokerAction) :
    Decidable (c.Received i a) :=
  match a with
  | .call task => inferInstanceAs (Decidable ((∀ message ∈ task.received,
      ∃ p ∈ c.messages, i ∈ p.1 ∧ p.2 = message) ∧
      ∀ ack ∈ task.receivedAck, ∃ p ∈ c.acks, i ∈ p.1 ∧ p.2 = ack))
  | .advance _ _ _ => isTrue trivial
  | .membership _ => isTrue trivial

instance decidableEnabled (c : BrokerCluster) (a : ClusterAction) : Decidable (c.Enabled a) :=
  match a with
  | .node i a => inferInstanceAs (Decidable (i ∉ c.failed ∧ (c.nodes i).Enabled a ∧ c.Received i a))
  | .fail _ => isTrue trivial

variable {c : BrokerCluster}

@[simp] theorem step_node (i : NodeId) (a : BrokerAction) :
    (c.step (.node i a)).nodes i = (c.nodes i).step a := by
  simp [step]

theorem step_node_of_ne {i j : NodeId} (h : j ≠ i) (a : BrokerAction) :
    (c.step (.node i a)).nodes j = c.nodes j := by
  simp [step, h]

/-! ## The run of one node -/

/-- What the node does. -/
def actionAt (i : NodeId) : ClusterAction → Option BrokerAction
  | .node j a => if j = i then some a else none
  | .fail _ => none

theorem actionAt_self (i : NodeId) (a : BrokerAction) : actionAt i (.node i a) = some a :=
  if_pos rfl

theorem actionAt_of_ne {i j : NodeId} (h : j ≠ i) (a : BrokerAction) :
    actionAt i (.node j a) = none :=
  if_neg h

theorem nodes_run (i : NodeId) (as : List ClusterAction) :
    (run step c as).nodes i = run BrokerNode.step (c.nodes i) (as.filterMap (actionAt i)) := by
  induction as generalizing c with
  | nil => rfl
  | cons a as ih =>
      rw [run_cons, ih]
      cases a with
      | fail j => rfl
      | node j a =>
          by_cases hj : j = i
          · subst hj
            rw [step_node, List.filterMap_cons_some (actionAt_self j a)]
            rfl
          · rw [step_node_of_ne (Ne.symm hj), List.filterMap_cons_none (actionAt_of_ne hj a)]

/-- A condition that a cluster checks of every step of a node holds of the steps of the node. -/
theorem admissible_node {ok : BrokerCluster → ClusterAction → Prop}
    {okNode : BrokerNode → BrokerAction → Prop} {i : NodeId}
    (hok : ∀ c a, ok c (.node i a) → okNode (c.nodes i) a) {as : List ClusterAction}
    (h : Admissible step ok c as) :
    Admissible BrokerNode.step okNode (c.nodes i) (as.filterMap (actionAt i)) := by
  induction as generalizing c with
  | nil => trivial
  | cons a as ih =>
      have hrest := ih h.2
      cases a with
      | fail j => exact hrest
      | node j a =>
          by_cases hj : j = i
          · subst hj
            rw [step_node] at hrest
            rw [List.filterMap_cons_some (actionAt_self j a)]
            exact ⟨hok c a h.1, hrest⟩
          · rw [step_node_of_ne (Ne.symm hj)] at hrest
            rw [List.filterMap_cons_none (actionAt_of_ne hj a)]
            exact hrest

end BrokerCluster

end ActixPura
