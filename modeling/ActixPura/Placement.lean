import ActixPura.Serialization
import ActixPura.Runs

/-!
# Placement strategies

`placement.rs`. A strategy chooses a node among those a selector calls active; the selector is asked
anew at each call, and what it answers may change between two calls. The index of the round robin
and the nodes chosen for redundant actors are kept from call to call.

An index out of bounds panics. The round robin index stays below the length of some list of nodes,
so that adding one to it does not overflow. `draw` is what the random number generator gives.
-/

namespace ActixPura

open Runs
open Std (ExtTreeMap)

inductive PlacementStrategy
  | random
  | node (id : Uuid)
  | roundRobin
  | leastLoaded
  | redundant (replicas : ℕ)
  | localAffinity (fallback : PlacementStrategy) (group : Option String)

structure NodeSelector where
  activeNodes : List NodeId
  nodeInfo : NodeId → Option NodeInfo

inductive PlacementOutcome (α : Type*)
  | returned (result : Except ClusterError α)
  | panicked
  deriving DecidableEq

structure PlacementStrategyImpl where
  roundRobinIndex : ℕ
  redundantNodes : ExtTreeMap String (List NodeId) compare

/-- The node that calls itself local. -/
def nilNodeId : NodeId := 0

def nodeAt (nodes : List NodeId) (i : ℕ) : PlacementOutcome NodeId :=
  match nodes[i]? with
  | some node => .returned (.ok node)
  | none => .panicked

def hashString (s : String) : UInt64 :=
  s.toUTF8.toList.foldl (fun hash b => hash * 31 + b.toUInt64) 0

/-- The nearest node that is not used, with its index and whether there is one. -/
def closestUnused (available : List NodeId) (hash : UInt64) (used : List ℕ) : UInt64 × ℕ × Bool :=
  available.zipIdx.foldl
    (fun best node =>
      if node.2 ∈ used then best
      else
        let nodeHash := hashString (Uuid.toString node.1)
        let distance := if nodeHash > hash then nodeHash - hash else hash - nodeHash
        if distance < best.1 then (distance, node.2, true) else (best.1, best.2.1, true))
    (UInt64.ofNat (2 ^ 64 - 1), 0, false)

/-- The replicas that are still to be selected, after those that are. -/
def selectReplicas (available : List NodeId) (baseHash : UInt64) (replicas : ℕ) :
    ℕ → List ℕ → List NodeId → PlacementOutcome (List NodeId)
  | 0, _, selected => .returned (.ok selected)
  | left + 1, used, selected =>
    let closest := closestUnused available (baseHash + UInt64.ofNat (replicas - (left + 1))) used
    if closest.2.2 then
      match available[closest.2.1]? with
      | some node => selectReplicas available baseHash replicas left (closest.2.1 :: used)
          (selected ++ [node])
      | none => .panicked
    else .returned (.error (.invalidOperation
      s!"Not enough unique nodes available for {replicas} replicas"))

namespace NodeSelector

variable (selector : NodeSelector)

def tooManyReplicas (replicas : ℕ) : ClusterError := .invalidOperation
  s!"Requested {replicas} replicas but only {selector.activeNodes.length} nodes available"

def selectRedundantNodes (path : String) (replicas : ℕ) : PlacementOutcome (List NodeId) :=
  if selector.activeNodes = [] then .returned (.error .noNodesAvailable)
  else if replicas > selector.activeNodes.length then
    .returned (.error (selector.tooManyReplicas replicas))
  else selectReplicas selector.activeNodes (hashString path) replicas replicas [] []

def selectSpecificNode (id : NodeId) : PlacementOutcome NodeId :=
  if (selector.nodeInfo id).isSome then .returned (.ok id)
  else .returned (.error (.nodeNotFound id))

def selectRandomNode (draw : ℕ) : PlacementOutcome NodeId :=
  if selector.activeNodes = [] then .returned (.error .noNodesAvailable)
  else nodeAt selector.activeNodes (draw % selector.activeNodes.length)

def selectLeastLoadedNode : PlacementOutcome NodeId :=
  match selector.activeNodes with
  | [] => .returned (.error .noNodesAvailable)
  | first :: rest =>
    let least := (first :: rest).foldl
      (fun (least : UInt8 × NodeId) id => match selector.nodeInfo id with
        | some info => if info.load < least.1 then (info.load, id) else least
        | none => least)
      (255, first)
    .returned (.ok least.2)

/-- The local node, or the first one with a capability of the group. -/
def affinityNode (group : Option String) : Option NodeId :=
  if nilNodeId ∈ selector.activeNodes then some nilNodeId
  else match group with
    | none => none
    | some groupId => selector.activeNodes.find? fun id => match selector.nodeInfo id with
      | some info => info.capabilities.any fun cap => cap.startsWith s!"/user/{groupId}/"
      | none => false

end NodeSelector

namespace PlacementStrategyImpl

def new : PlacementStrategyImpl := ⟨0, ∅⟩

variable (placement : PlacementStrategyImpl) (selector : NodeSelector)

def selectRoundRobinNode : PlacementOutcome NodeId × PlacementStrategyImpl :=
  let available := selector.activeNodes
  if available = [] then (.returned (.error .noNodesAvailable), placement)
  else
    (nodeAt available (placement.roundRobinIndex % available.length),
      { placement with roundRobinIndex := (placement.roundRobinIndex + 1) % available.length })

/-- The nodes that were chosen for the path before are taken again. -/
def selectRedundant (path : String) (replicas : ℕ) :
    PlacementOutcome NodeId × PlacementStrategyImpl :=
  if selector.activeNodes = [] then (.returned (.error .noNodesAvailable), placement)
  else if replicas > selector.activeNodes.length then
    (.returned (.error (selector.tooManyReplicas replicas)), placement)
  else
    match placement.redundantNodes[path]? with
    | some nodes => (nodeAt nodes 0, placement)
    | none =>
      match selector.selectRedundantNodes path replicas with
      | .returned (.ok nodes) =>
        (nodeAt nodes 0,
          { placement with redundantNodes := placement.redundantNodes.insert path nodes })
      | .returned (.error error) => (.returned (.error error), placement)
      | .panicked => (.panicked, placement)

def selectNode (path : String) (draw : ℕ) :
    PlacementStrategy → PlacementOutcome NodeId × PlacementStrategyImpl
  | .random => (selector.selectRandomNode draw, placement)
  | .roundRobin => placement.selectRoundRobinNode selector
  | .leastLoaded => (selector.selectLeastLoadedNode, placement)
  | .node id => (selector.selectSpecificNode id, placement)
  | .redundant replicas => placement.selectRedundant selector path replicas
  | .localAffinity fallback group =>
    if selector.activeNodes = [] then (.returned (.error .noNodesAvailable), placement)
    else match selector.affinityNode group with
      | some id => (.returned (.ok id), placement)
      | none => selectNode path draw fallback

end PlacementStrategyImpl

/-! ## Safety of one selection -/

namespace PlacementOutcome

/-- The call returns, and what it returns is one of the nodes. -/
def Among (nodes : List NodeId) : PlacementOutcome NodeId → Prop
  | .returned (.ok node) => node ∈ nodes
  | .returned (.error _) => True
  | .panicked => False

instance decidableAmong (nodes : List NodeId) :
    (outcome : PlacementOutcome NodeId) → Decidable (outcome.Among nodes)
  | .returned (.ok node) => inferInstanceAs (Decidable (node ∈ nodes))
  | .returned (.error _) => .isTrue trivial
  | .panicked => .isFalse id

end PlacementOutcome

theorem among_nodeAt {nodes : List NodeId} {i : ℕ} (h : i < nodes.length) :
    (nodeAt nodes i).Among nodes := by
  unfold nodeAt
  rw [List.getElem?_eq_getElem h]
  exact List.getElem_mem h

/-- Indices that a fold picks up from the list stay within it. -/
theorem closestUnused_lt {available : List NodeId} (h : available ≠ []) (hash : UInt64)
    (used : List ℕ) : (closestUnused available hash used).2.1 < available.length := by
  unfold closestUnused
  have hinv : ∀ (nodes : List (NodeId × ℕ)) (best : UInt64 × ℕ × Bool),
      (∀ node ∈ nodes, node.2 < available.length) → best.2.1 < available.length →
      (nodes.foldl (fun best node =>
        if node.2 ∈ used then best
        else
          let nodeHash := hashString (Uuid.toString node.1)
          let distance := if nodeHash > hash then nodeHash - hash else hash - nodeHash
          if distance < best.1 then (distance, node.2, true) else (best.1, best.2.1, true))
        best).2.1 < available.length := by
    intro nodes
    induction nodes with
    | nil => exact fun best _ hbest => hbest
    | cons node nodes ih =>
        intro best hnodes hbest
        refine ih _ (fun node' hnode' => hnodes node' (List.mem_cons_of_mem _ hnode')) ?_
        have hnode := hnodes node List.mem_cons_self
        simp only
        split_ifs <;> assumption
  refine hinv _ _ (fun node hnode => ?_) (List.length_pos_of_ne_nil h)
  obtain ⟨-, hlt, -⟩ := List.mem_zipIdx hnode
  simpa using hlt

/-- The selection of replicas does not panic, and selects as many active nodes as are asked for. -/
theorem selectReplicas_spec {available : List NodeId} (h : available ≠ []) (baseHash : UInt64)
    (replicas left : ℕ) (used : List ℕ) (selected : List NodeId)
    (hselected : ∀ node ∈ selected, node ∈ available) :
    (∃ error, selectReplicas available baseHash replicas left used selected =
      .returned (.error error)) ∨
    ∃ nodes, selectReplicas available baseHash replicas left used selected =
      .returned (.ok nodes) ∧ nodes.length = selected.length + left ∧
      ∀ node ∈ nodes, node ∈ available := by
  induction left generalizing used selected with
  | zero => exact Or.inr ⟨selected, rfl, rfl, hselected⟩
  | succ left ih =>
      simp only [selectReplicas]
      split_ifs
      · have hlt := closestUnused_lt h
          (baseHash + UInt64.ofNat (replicas - (left + 1))) used
        rw [List.getElem?_eq_getElem hlt]
        rcases ih (_ :: used) (selected ++ [available[(closestUnused available
          (baseHash + UInt64.ofNat (replicas - (left + 1))) used).2.1]]) (by
            intro node hnode
            rcases List.mem_append.mp hnode with hin | hin
            · exact hselected node hin
            · rw [List.mem_singleton.mp hin]
              exact List.getElem_mem hlt) with herror | ⟨nodes, heq, hlength, hnodes⟩
        · exact Or.inl herror
        · refine Or.inr ⟨nodes, heq, ?_, hnodes⟩
          rw [hlength, List.length_append, List.length_singleton]
          omega
      · exact Or.inl ⟨_, rfl⟩

namespace NodeSelector

variable (selector : NodeSelector)

theorem among_selectRandomNode (draw : ℕ) :
    (selector.selectRandomNode draw).Among selector.activeNodes := by
  unfold selectRandomNode
  split_ifs with h
  · trivial
  · exact among_nodeAt (Nat.mod_lt _ (List.length_pos_of_ne_nil h))

theorem among_selectLeastLoadedNode :
    selector.selectLeastLoadedNode.Among selector.activeNodes := by
  unfold selectLeastLoadedNode
  split
  · trivial
  · next first rest h =>
      rw [h]
      refine List.foldlRecOn (motive := fun least : UInt8 × NodeId => least.2 ∈ first :: rest) _ _
        List.mem_cons_self fun least hleast id hid => ?_
      split
      · split_ifs
        · exact hid
        · exact hleast
      · exact hleast

theorem mem_affinityNode {group : Option String} {id : NodeId}
    (h : selector.affinityNode group = some id) : id ∈ selector.activeNodes := by
  unfold affinityNode at h
  split_ifs at h with hlocal
  · rw [← Option.some.inj h]
    exact hlocal
  · cases group with
    | none => simp at h
    | some groupId => exact List.mem_of_find?_eq_some h

end NodeSelector

namespace PlacementStrategyImpl

variable (placement : PlacementStrategyImpl) (selector : NodeSelector)

/-- The first of the nodes that were chosen for the path is active; if none were chosen, at least
one is asked for. -/
def RedundantSupported (path : String) (replicas : ℕ) : Prop :=
  match placement.redundantNodes[path]? with
  | some nodes => ∃ node ∈ nodes.head?, node ∈ selector.activeNodes
  | none => 0 < replicas

/-- What a selection rests on: a node that is asked for by name is active if it is known, and there
are nodes for a redundant actor. -/
def Supported (path : String) : PlacementStrategy → Prop
  | .node id => (selector.nodeInfo id).isSome = true → id ∈ selector.activeNodes
  | .redundant replicas => selector.activeNodes ≠ [] → replicas ≤ selector.activeNodes.length →
      placement.RedundantSupported selector path replicas
  | .localAffinity fallback group => selector.activeNodes ≠ [] →
      selector.affinityNode group = none → Supported path fallback
  | _ => True

theorem among_nodeAt_zero {nodes active : List NodeId} :
    (nodeAt nodes 0).Among active ↔ ∃ node ∈ nodes.head?, node ∈ active := by
  cases nodes with
  | nil => simp [nodeAt, PlacementOutcome.Among]
  | cons node rest => simp [nodeAt, PlacementOutcome.Among]

theorem selectRedundant_iff (path : String) (replicas : ℕ) :
    (placement.selectRedundant selector path replicas).1.Among selector.activeNodes ↔
      (selector.activeNodes ≠ [] → replicas ≤ selector.activeNodes.length →
        placement.RedundantSupported selector path replicas) := by
  unfold selectRedundant RedundantSupported
  split_ifs with hempty hmany
  · simp [hempty, PlacementOutcome.Among]
  · simp [PlacementOutcome.Among, Nat.not_le.mpr hmany]
  · simp only [ne_eq, hempty, not_false_eq_true, Nat.le_of_not_gt hmany, forall_true_left]
    cases hcached : placement.redundantNodes[path]? with
    | some nodes => exact among_nodeAt_zero
    | none =>
        simp only [NodeSelector.selectRedundantNodes, if_neg hempty, if_neg hmany]
        rcases selectReplicas_spec hempty (hashString path) replicas replicas [] [] (by simp) with
          ⟨error, heq⟩ | ⟨nodes, heq, hlength, hnodes⟩
        · rw [heq]
          refine ⟨fun _ => ?_, fun _ => trivial⟩
          rcases Nat.eq_zero_or_pos replicas with rfl | hpos
          · simp [selectReplicas] at heq
          · exact hpos
        · rw [heq]
          simp only [among_nodeAt_zero]
          cases nodes with
          | nil => simp_all
          | cons node rest =>
              refine ⟨fun _ => by simp at hlength; omega, fun _ => ⟨node, rfl, ?_⟩⟩
              exact hnodes node List.mem_cons_self

/-- A selection is safe exactly when what it rests on is there. -/
theorem selectNode_iff (path : String) (draw : ℕ) (strategy : PlacementStrategy) :
    (placement.selectNode selector path draw strategy).1.Among selector.activeNodes ↔
      placement.Supported selector path strategy := by
  induction strategy with
  | random => exact iff_of_true (selector.among_selectRandomNode draw) trivial
  | leastLoaded => exact iff_of_true selector.among_selectLeastLoadedNode trivial
  | roundRobin =>
      refine iff_of_true ?_ trivial
      simp only [selectNode, selectRoundRobinNode]
      split_ifs with hempty
      · trivial
      · exact among_nodeAt (Nat.mod_lt _ (List.length_pos_of_ne_nil hempty))
  | node id =>
      simp only [selectNode, NodeSelector.selectSpecificNode, Supported]
      split_ifs with hknown
      · simp [PlacementOutcome.Among, hknown]
      · simp [PlacementOutcome.Among, hknown]
  | redundant replicas => exact placement.selectRedundant_iff selector path replicas
  | localAffinity fallback group ih =>
      simp only [selectNode, Supported]
      split_ifs with hempty
      · simp [PlacementOutcome.Among, hempty]
      · cases haffinity : selector.affinityNode group with
        | some id =>
            refine iff_of_true (selector.mem_affinityNode haffinity) fun _ hnone => ?_
            exact absurd hnone (by simp)
        | none =>
            simp only [ne_eq, hempty, not_false_eq_true, forall_true_left]
            exact ih

end PlacementStrategyImpl

/-! ## Runs -/

/-- The placement and what its selector answers. -/
structure Placement where
  placement : PlacementStrategyImpl
  selector : NodeSelector

inductive PlacementAction
  | select (path : String) (strategy : PlacementStrategy) (draw : ℕ)
  | change (selector : NodeSelector)

namespace Placement

def start (selector : NodeSelector) : Placement := ⟨.new, selector⟩

def step (s : Placement) : PlacementAction → Placement
  | .select path strategy draw =>
      { s with placement := (s.placement.selectNode s.selector path draw strategy).2 }
  | .change selector => { s with selector := selector }

/-- The selection does not panic, and the node it returns is active. -/
def Safe (s : Placement) : PlacementAction → Prop
  | .select path strategy draw =>
      (s.placement.selectNode s.selector path draw strategy).1.Among s.selector.activeNodes
  | .change _ => True

def Supported (s : Placement) : PlacementAction → Prop
  | .select path strategy _ => s.placement.Supported s.selector path strategy
  | .change _ => True

theorem safe_iff_supported (s : Placement) (a : PlacementAction) : s.Safe a ↔ s.Supported a := by
  cases a with
  | select path strategy draw => exact s.placement.selectNode_iff s.selector path draw strategy
  | change selector => exact Iff.rfl

/-- All selections of a run are safe exactly when each finds what it rests on. -/
theorem placement_safe (selector : NodeSelector) (as : List PlacementAction) :
    Admissible step Safe (start selector) as ↔ Admissible step Supported (start selector) as :=
  ⟨admissible_mono fun s a => (s.safe_iff_supported a).mp,
    admissible_mono fun s a => (s.safe_iff_supported a).mpr⟩

/-- A redundant actor without replicas panics. -/
theorem not_placement_safe : ¬ ∀ (selector : NodeSelector) (as : List PlacementAction),
    Admissible step Safe (start selector) as := by
  intro h
  exact (h ⟨[1], fun _ => none⟩ [.select "a" (.redundant 0) 0]).1

end Placement

end ActixPura
