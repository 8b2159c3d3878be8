import ActixPura.Placement
import ActixPura.GreedyOrder

/-!
# Redundant placement

The selection of nodes for a redundant actor, `placement.rs`, whatever the path and the nodes hash
to. It takes the nodes in the greedy order of their distances to hashes that follow the hash of the
path. The index of the nearest node starts at the first node and the least distance at the greatest
one there is, so nodes at that distance are passed over and the first node is taken in their place,
although it may have been taken before.
-/

namespace ActixPura

open GreedyOrder

section Hashes

variable (pathHash : String → UInt64) (nodeHash : NodeId → UInt64)

/-- `closestUnused` with any hashes. -/
def closestUnusedBy (available : List NodeId) (hash : UInt64) (used : List ℕ) :
    UInt64 × ℕ × Bool :=
  available.zipIdx.foldl
    (fun best node =>
      if node.2 ∈ used then best
      else
        let nodeHash := nodeHash node.1
        let distance := if nodeHash > hash then nodeHash - hash else hash - nodeHash
        if distance < best.1 then (distance, node.2, true) else (best.1, best.2.1, true))
    (UInt64.ofNat (2 ^ 64 - 1), 0, false)

/-- `selectReplicas` with any hashes. -/
def selectReplicasBy (available : List NodeId) (baseHash : UInt64) (replicas : ℕ) :
    ℕ → List ℕ → List NodeId → PlacementOutcome (List NodeId)
  | 0, _, selected => .returned (.ok selected)
  | left + 1, used, selected =>
    let closest := closestUnusedBy nodeHash available
      (baseHash + UInt64.ofNat (replicas - (left + 1))) used
    if closest.2.2 then
      match available[closest.2.1]? with
      | some node => selectReplicasBy available baseHash replicas left (closest.2.1 :: used)
          (selected ++ [node])
      | none => .panicked
    else .returned (.error (.invalidOperation
      s!"Not enough unique nodes available for {replicas} replicas"))

/-- `selectRedundantNodes` with any hashes. -/
def NodeSelector.selectRedundantNodesBy (selector : NodeSelector) (path : String)
    (replicas : ℕ) : PlacementOutcome (List NodeId) :=
  if selector.activeNodes = [] then .returned (.error .noNodesAvailable)
  else if replicas > selector.activeNodes.length then
    .returned (.error (selector.tooManyReplicas replicas))
  else selectReplicasBy nodeHash selector.activeNodes (pathHash path) replicas replicas [] []

/-- The distance of a node to the hash that a replica is placed at. -/
def nodeDistance (path : String) (i : ℕ) (node : NodeId) : ℕ :=
  Nat.dist (nodeHash node).toNat (((pathHash path).toNat + i) % 2 ^ 64)

/-- As many distinct active nodes as are asked for, each one of the nearest that are left. -/
def SelectsNearest (path : String) (nodes : List NodeId) (replicas : ℕ) :
    PlacementOutcome (List NodeId) → Prop
  | .returned (.ok selected) => selected.length = replicas ∧ selected.Nodup ∧ selected ⊆ nodes ∧
      Cheapest (nodeDistance pathHash nodeHash path) nodes selected
  | .returned (.error _) => False
  | .panicked => False

/-- The nodes in the order of their distances. -/
def nearestOrder (path : String) (nodes : List NodeId) : ℕ → List NodeId :=
  order (nodeDistance pathHash nodeHash path) nodes

/-- The first node is taken, and the ones that are not are all at the greatest distance there is. -/
def Opposite (path : String) (nodes : List NodeId) (i : ℕ) : Prop :=
  (∃ first ∈ nodes.head?, first ∈ nearestOrder pathHash nodeHash path nodes i) ∧
    ∀ node ∈ nodes, node ∉ nearestOrder pathHash nodeHash path nodes i →
      nodeDistance pathHash nodeHash path i node = 2 ^ 64 - 1

end Hashes

def hashNode (node : NodeId) : UInt64 := hashString (Uuid.toString node)

theorem selectReplicas_eq (available : List NodeId) (baseHash : UInt64) (replicas left : ℕ)
    (used : List ℕ) (selected : List NodeId) :
    selectReplicas available baseHash replicas left used selected =
      selectReplicasBy hashNode available baseHash replicas left used selected := by
  induction left generalizing used selected with
  | zero => rfl
  | succ left ih =>
      simp only [selectReplicas, selectReplicasBy, ih]
      rfl

theorem NodeSelector.selectRedundantNodes_eq (selector : NodeSelector) (path : String)
    (replicas : ℕ) : selector.selectRedundantNodes path replicas =
      selector.selectRedundantNodesBy hashString hashNode path replicas := by
  unfold selectRedundantNodes selectRedundantNodesBy
  rw [selectReplicas_eq]

/-! ## One replica -/

theorem toNat_distance (a b : UInt64) :
    (if a > b then a - b else b - a).toNat = Nat.dist a.toNat b.toNat := by
  split_ifs with h
  · have hle : b ≤ a := UInt64.le_of_lt h
    rw [UInt64.toNat_sub_of_le _ _ hle, Nat.dist_eq_sub_of_le_right (UInt64.le_iff_toNat_le.mp hle)]
  · have hle : a ≤ b := UInt64.not_lt.mp h
    rw [UInt64.toNat_sub_of_le _ _ hle, Nat.dist_eq_sub_of_le (UInt64.le_iff_toNat_le.mp hle)]

theorem dist_le (a b : UInt64) : Nat.dist a.toNat b.toNat ≤ 2 ^ 64 - 1 := by
  have ha := a.toNat_lt
  have hb := b.toNat_lt
  unfold Nat.dist
  omega

section Search

variable {nodeHash : NodeId → UInt64} {available : List NodeId} {hash : UInt64} {used : List ℕ}
  {taken : List NodeId}

/-- The nearest of some nodes, as the search keeps it: the index stays at the first node while
there are only nodes at the greatest distance. -/
def Found (nodeHash : NodeId → UInt64) (available : List NodeId) (hash : UInt64)
    (closest : UInt64 × ℕ × Bool) : Option NodeId → Prop
  | none => closest = (UInt64.ofNat (2 ^ 64 - 1), 0, false)
  | some node => closest.1.toNat = Nat.dist (nodeHash node).toNat hash.toNat ∧
      closest.2.2 = true ∧
      (closest.1.toNat = 2 ^ 64 - 1 ∧ closest.2.1 = 0 ∨
        closest.1.toNat < 2 ^ 64 - 1 ∧ available[closest.2.1]? = some node)

theorem Found.step {closest : UInt64 × ℕ × Bool} {nearest : Option NodeId} {node : NodeId}
    {index : ℕ} (h : Found nodeHash available hash closest nearest)
    (hindex : available[index]? = some node) :
    Found nodeHash available hash
      (let nodeHash := nodeHash node
        let distance := if nodeHash > hash then nodeHash - hash else hash - nodeHash
        if distance < closest.1 then (distance, index, true) else (closest.1, closest.2.1, true))
      (List.argAux (fun a b => Nat.dist (nodeHash a).toNat hash.toNat <
        Nat.dist (nodeHash b).toNat hash.toNat) nearest node) := by
  have hdistance := toNat_distance (nodeHash node) hash
  have hle := dist_le (nodeHash node) hash
  simp only
  generalize (if nodeHash node > hash then nodeHash node - hash else hash - nodeHash node) =
    distance at hdistance ⊢
  cases nearest with
  | none =>
      rw [Found] at h
      rw [h, List.argAux]
      have hgreatest : (UInt64.ofNat (2 ^ 64 - 1)).toNat = 2 ^ 64 - 1 := by decide
      by_cases hlt : distance < UInt64.ofNat (2 ^ 64 - 1)
      · have hlt' := UInt64.lt_iff_toNat_lt.mp hlt
        rw [hgreatest] at hlt'
        simp only [if_pos hlt]
        exact ⟨hdistance, rfl, Or.inr ⟨by omega, hindex⟩⟩
      · have hge := UInt64.lt_iff_toNat_lt.not.mp hlt
        rw [hgreatest] at hge
        simp only [if_neg hlt]
        exact ⟨by rw [hgreatest]; omega, rfl, Or.inl ⟨hgreatest, rfl⟩⟩
  | some other =>
      obtain ⟨hother, hfound, hplace⟩ := h
      rw [List.argAux]
      by_cases hlt : distance < closest.1
      · have hlt' := UInt64.lt_iff_toNat_lt.mp hlt
        have hnear : Nat.dist (nodeHash node).toNat hash.toNat <
            Nat.dist (nodeHash other).toNat hash.toNat := by omega
        have hle' := dist_le (nodeHash other) hash
        have hless : distance.toNat < 2 ^ 64 - 1 := by omega
        simp only [if_pos hlt, if_pos hnear]
        exact ⟨hdistance, rfl, Or.inr ⟨hless, hindex⟩⟩
      · have hge := UInt64.lt_iff_toNat_lt.not.mp hlt
        have hfar : ¬ Nat.dist (nodeHash node).toNat hash.toNat <
            Nat.dist (nodeHash other).toNat hash.toNat := by omega
        simp only [if_neg hlt, if_neg hfar]
        exact ⟨hother, rfl, hplace⟩

variable (nodeHash hash) in
theorem found_closestUnused
    (hused : ∀ index node, available[index]? = some node → (index ∈ used ↔ node ∈ taken)) :
    Found nodeHash available hash (closestUnusedBy nodeHash available hash used)
      ((left available taken).argmin fun node => Nat.dist (nodeHash node).toNat hash.toNat) := by
  have hinv : ∀ (nodes : List (NodeId × ℕ)) (closest : UInt64 × ℕ × Bool)
      (nearest : Option NodeId),
      (∀ node ∈ nodes, available[node.2]? = some node.1) →
      Found nodeHash available hash closest nearest →
      Found nodeHash available hash
        (nodes.foldl (fun best node =>
          if node.2 ∈ used then best
          else
            let nodeHash := nodeHash node.1
            let distance := if nodeHash > hash then nodeHash - hash else hash - nodeHash
            if distance < best.1 then (distance, node.2, true) else (best.1, best.2.1, true))
          closest)
        ((left (nodes.map Prod.fst) taken).foldl (List.argAux fun a b =>
          Nat.dist (nodeHash a).toNat hash.toNat < Nat.dist (nodeHash b).toNat hash.toNat)
          nearest) := by
    intro nodes
    induction nodes with
    | nil => exact fun _ _ _ h => h
    | cons node nodes ih =>
        intro closest nearest hnodes h
        have hnode := hnodes node List.mem_cons_self
        have hrest := fun node' h' => hnodes node' (List.mem_cons_of_mem _ h')
        have hsame := hused _ _ hnode
        rw [List.foldl_cons, List.map_cons, left]
        by_cases htaken : node.1 ∈ taken
        · rw [if_pos (hsame.mpr htaken), List.filter_cons_of_neg (by simpa using htaken)]
          exact ih _ _ hrest h
        · rw [if_neg (hsame.not.mpr htaken), List.filter_cons_of_pos (by simpa using htaken)]
          exact ih _ _ hrest (h.step hnode)
  have hnodes : ∀ node ∈ available.zipIdx, available[node.2]? = some node.1 :=
    fun node hnode => List.mem_zipIdx_iff_getElem?.mp hnode
  have h := hinv available.zipIdx (UInt64.ofNat (2 ^ 64 - 1), 0, false) none hnodes rfl
  rwa [List.zipIdx_map_fst] at h

end Search

/-! ## All replicas -/

section Replicas

variable {pathHash : String → UInt64} {nodeHash : NodeId → UInt64} {path : String}
  {nodes : List NodeId} {used : List ℕ} {i : ℕ}

theorem nodeDistance_eq (node : NodeId) : nodeDistance pathHash nodeHash path i node =
    Nat.dist (nodeHash node).toNat (pathHash path + UInt64.ofNat i).toNat := by
  rw [nodeDistance, UInt64.toNat_add, UInt64.toNat_ofNat', Nat.add_mod_mod]

/-- The used indices are those of the nodes that are taken. -/
def Uses (nodes : List NodeId) (used : List ℕ) (taken : List NodeId) : Prop :=
  ∀ index node, nodes[index]? = some node → (index ∈ used ↔ node ∈ taken)

theorem Uses.cons {taken : List NodeId} {index : ℕ} {node : NodeId} (h : Uses nodes used taken)
    (hnodup : nodes.Nodup) (hindex : nodes[index]? = some node) :
    Uses nodes (index :: used) (taken ++ [node]) := by
  intro index' node' hindex'
  have hsame : index' = index ↔ node' = node := by
    constructor
    · rintro rfl
      exact Option.some.inj (hindex'.symm.trans hindex)
    · rintro rfl
      have hsame := (List.getElem?_eq_some_iff.mp hindex').2.trans
        (List.getElem?_eq_some_iff.mp hindex).2.symm
      exact (hnodup.getElem_inj_iff).mp hsame
  rw [List.mem_cons, List.mem_append, List.mem_singleton, h index' node' hindex', hsame, or_comm]

variable (pathHash nodeHash path) in
theorem exists_nearest (hnodup : nodes.Nodup) (hi : i < nodes.length) :
    ∃ node, (left nodes (nearestOrder pathHash nodeHash path nodes i)).argmin
      (nodeDistance pathHash nodeHash path i) = some node := by
  have hcard := List.toFinset_card_of_nodup hnodup
  refine exists_argmin ?_
  rw [order_length (by omega)]
  omega

theorem found_nearest (huses : Uses nodes used (nearestOrder pathHash nodeHash path nodes i))
    (hnodup : nodes.Nodup) (hi : i < nodes.length) :
    ∃ node, (left nodes (nearestOrder pathHash nodeHash path nodes i)).argmin
        (nodeDistance pathHash nodeHash path i) = some node ∧
      Found nodeHash nodes (pathHash path + UInt64.ofNat i)
        (closestUnusedBy nodeHash nodes (pathHash path + UInt64.ofNat i) used) (some node) := by
  obtain ⟨node, hnode⟩ := exists_nearest pathHash nodeHash path hnodup hi
  have hfound := found_closestUnused nodeHash (pathHash path + UInt64.ofNat i) huses
  have hdistance : nodeDistance pathHash nodeHash path i =
      fun node => Nat.dist (nodeHash node).toNat (pathHash path + UInt64.ofNat i).toNat :=
    funext nodeDistance_eq
  rw [← hdistance, hnode] at hfound
  exact ⟨node, hnode, hfound⟩

/-- If all nodes that are left are at the greatest distance, the first node is found, and has been
taken. -/
theorem search_opposite (huses : Uses nodes used (nearestOrder pathHash nodeHash path nodes i))
    (hnodup : nodes.Nodup) (hi : i < nodes.length)
    (hopposite : Opposite pathHash nodeHash path nodes i) :
    let closest := closestUnusedBy nodeHash nodes (pathHash path + UInt64.ofNat i) used
    closest.2.2 = true ∧ ∃ node, nodes[closest.2.1]? = some node ∧
      node ∈ nearestOrder pathHash nodeHash path nodes i := by
  obtain ⟨node, hnode, hdistance, hfound, hplace⟩ := found_nearest huses hnodup hi
  obtain ⟨⟨first, hfirst, htaken⟩, hall⟩ := hopposite
  obtain ⟨hmem, hnew⟩ := mem_left.mp (List.argmin_mem hnode)
  have hfar := hall node hmem hnew
  rw [nodeDistance_eq, ← hdistance] at hfar
  rcases hplace with ⟨-, hindex⟩ | ⟨hnear, -⟩
  · exact ⟨hfound, first, by rw [hindex, ← List.head?_eq_getElem?, hfirst], htaken⟩
  · omega

/-- Otherwise the nearest node that is left is found. -/
theorem search_nearest (huses : Uses nodes used (nearestOrder pathHash nodeHash path nodes i))
    (hnodup : nodes.Nodup) (hi : i < nodes.length)
    (hopposite : ¬ Opposite pathHash nodeHash path nodes i) :
    let closest := closestUnusedBy nodeHash nodes (pathHash path + UInt64.ofNat i) used
    closest.2.2 = true ∧ ∃ node, nodes[closest.2.1]? = some node ∧
      nearestOrder pathHash nodeHash path nodes (i + 1) =
        nearestOrder pathHash nodeHash path nodes i ++ [node] := by
  obtain ⟨node, hnode, hdistance, hfound, hplace⟩ := found_nearest huses hnodup hi
  refine ⟨hfound, node, ?_, order_succ_of_argmin hnode⟩
  rcases hplace with ⟨hfar, hindex⟩ | ⟨-, hindex⟩
  · have hall : ∀ other ∈ nodes, other ∉ nearestOrder pathHash nodeHash path nodes i →
        nodeDistance pathHash nodeHash path i other = 2 ^ 64 - 1 := by
      intro other hother hnew
      have hle := List.le_of_mem_argmin (mem_left.mpr ⟨hother, hnew⟩) hnode
      rw [nodeDistance_eq, nodeDistance_eq, ← hdistance, hfar] at hle
      rw [nodeDistance_eq]
      exact le_antisymm (dist_le _ _) hle
    obtain ⟨first, hfirst⟩ : ∃ first, nodes.head? = some first :=
      Option.ne_none_iff_exists'.mp fun hnone => by simp [List.head?_eq_none_iff.mp hnone] at hi
    have hnew : first ∉ nearestOrder pathHash nodeHash path nodes i :=
      fun htaken => hopposite ⟨⟨first, hfirst, htaken⟩, hall⟩
    have hhead : (left nodes (nearestOrder pathHash nodeHash path nodes i)).head? = some first := by
      obtain ⟨rest, hnodes⟩ := List.head?_eq_some_iff.mp hfirst
      generalize nearestOrder pathHash nodeHash path nodes i = taken at hnew ⊢
      rw [hnodes, left, List.filter_cons_of_pos (by simpa using hnew), List.head?_cons]
    rw [argmin_eq_head?, hhead] at hnode
    · rw [hindex, ← List.head?_eq_getElem?, hfirst, hnode]
    · intro a ha b hb
      obtain ⟨ha, hnewa⟩ := mem_left.mp ha
      obtain ⟨hb, hnewb⟩ := mem_left.mp hb
      rw [hall a ha hnewa, hall b hb hnewb]
  · exact hindex

theorem isPrefix_of_selectReplicasBy {baseHash : UInt64} {replicas k : ℕ}
    {selected result : List NodeId}
    (h : selectReplicasBy nodeHash nodes baseHash replicas k used selected =
      .returned (.ok result)) : selected <+: result := by
  induction k generalizing used selected with
  | zero =>
      rw [selectReplicasBy, PlacementOutcome.returned.injEq, Except.ok.injEq] at h
      exact h ▸ List.prefix_rfl
  | succ k ih =>
      simp only [selectReplicasBy] at h
      split_ifs at h
      · split at h
        · exact (List.prefix_append _ _).trans (ih h)
        · exact absurd h (by simp)
      · exact absurd h (by simp)

/-- From the nodes of the first rounds on, the nearest nodes are selected if the first node is
never found a second time, and only then. -/
theorem selectReplicasBy_cases {replicas k : ℕ} (hnodup : nodes.Nodup)
    (hreplicas : replicas ≤ nodes.length) (hk : i + k = replicas)
    (huses : Uses nodes used (nearestOrder pathHash nodeHash path nodes i)) :
    let outcome := selectReplicasBy nodeHash nodes (pathHash path) replicas k used
      (nearestOrder pathHash nodeHash path nodes i)
    ((∀ j, i ≤ j → j < replicas → ¬ Opposite pathHash nodeHash path nodes j) ∧
      outcome = .returned (.ok (nearestOrder pathHash nodeHash path nodes replicas))) ∨
    ((∃ j < replicas, Opposite pathHash nodeHash path nodes j) ∧
      ¬ SelectsNearest pathHash nodeHash path nodes replicas outcome) := by
  intro outcome
  induction k generalizing i used with
  | zero =>
      refine Or.inl ⟨fun j hij hj => by omega, ?_⟩
      rw [← hk]
      rfl
  | succ k ih =>
      have hround : replicas - (k + 1) = i := by omega
      by_cases hopposite : Opposite pathHash nodeHash path nodes i
      · obtain ⟨hfound, node, hindex, htaken⟩ :=
          search_opposite huses hnodup (by omega) hopposite
        refine Or.inr ⟨⟨i, by omega, hopposite⟩, fun hselects => ?_⟩
        simp only [outcome, selectReplicasBy, hround, hfound, if_true, hindex] at hselects
        cases hresult : selectReplicasBy nodeHash nodes (pathHash path) replicas k
            ((closestUnusedBy nodeHash nodes (pathHash path + UInt64.ofNat i) used).2.1 :: used)
            (nearestOrder pathHash nodeHash path nodes i ++ [node]) with
        | panicked => rwa [hresult] at hselects
        | returned result =>
            cases result with
            | error error => rwa [hresult] at hselects
            | ok result =>
                rw [hresult] at hselects
                have htwice := hselects.2.1.sublist (isPrefix_of_selectReplicasBy hresult).sublist
                exact List.disjoint_of_nodup_append htwice htaken (List.mem_singleton_self node)
      · obtain ⟨hfound, node, hindex, horder⟩ :=
          search_nearest huses hnodup (by omega) hopposite
        have hnext := ih (by omega) (horder ▸ huses.cons hnodup hindex)
        rw [horder] at hnext
        simp only [outcome, selectReplicasBy, hround, hfound, if_true, hindex]
        refine hnext.imp_left fun ⟨hnone, hresult⟩ => ⟨fun j hij hj => ?_, hresult⟩
        rcases hij.eq_or_lt with rfl | hlt
        · exact hopposite
        · exact hnone j hlt hj

theorem selectsNearest_nearestOrder {replicas : ℕ} (hnodup : nodes.Nodup)
    (hreplicas : replicas ≤ nodes.length) : SelectsNearest pathHash nodeHash path nodes replicas
      (.returned (.ok (nearestOrder pathHash nodeHash path nodes replicas))) := by
  rw [← List.toFinset_card_of_nodup hnodup] at hreplicas
  exact ⟨order_length hreplicas, order_nodup replicas, order_subset replicas,
    order_cheapest hreplicas⟩

end Replicas

namespace NodeSelector

variable (pathHash : String → UInt64) (nodeHash : NodeId → UInt64) (selector : NodeSelector)
  (path : String) {replicas : ℕ}

theorem selectRedundantNodesBy_cases (hnonempty : selector.activeNodes ≠ [])
    (hnodup : selector.activeNodes.Nodup) (hreplicas : replicas ≤ selector.activeNodes.length) :
    let outcome := selector.selectRedundantNodesBy pathHash nodeHash path replicas
    ((∀ i < replicas, ¬ Opposite pathHash nodeHash path selector.activeNodes i) ∧ outcome =
      .returned (.ok (nearestOrder pathHash nodeHash path selector.activeNodes replicas))) ∨
    ((∃ i < replicas, Opposite pathHash nodeHash path selector.activeNodes i) ∧
      ¬ SelectsNearest pathHash nodeHash path selector.activeNodes replicas outcome) := by
  intro outcome
  have houtcome : outcome = selectReplicasBy nodeHash selector.activeNodes (pathHash path)
      replicas replicas [] [] := by
    simp only [outcome, selectRedundantNodesBy, if_neg hnonempty, if_neg (not_lt.mpr hreplicas)]
  have huses : Uses selector.activeNodes []
      (nearestOrder pathHash nodeHash path selector.activeNodes 0) :=
    fun _ _ _ => iff_of_false List.not_mem_nil List.not_mem_nil
  rw [houtcome]
  exact (selectReplicasBy_cases hnodup hreplicas (Nat.zero_add _) huses).imp_left
    fun ⟨hnone, hresult⟩ => ⟨fun i hi => hnone i (Nat.zero_le i) hi, hresult⟩

theorem selectRedundantNodesBy_of_distance {pathHash : String → UInt64}
    {nodeHash : NodeId → UInt64} {selector : NodeSelector} {path : String}
    (hnonempty : selector.activeNodes ≠ []) (hnodup : selector.activeNodes.Nodup)
    (hreplicas : replicas ≤ selector.activeNodes.length)
    (hdistance : ∀ i < replicas, ∀ node ∈ selector.activeNodes,
      nodeDistance pathHash nodeHash path i node ≠ 2 ^ 64 - 1) :
    selector.selectRedundantNodesBy pathHash nodeHash path replicas =
      .returned (.ok (nearestOrder pathHash nodeHash path selector.activeNodes replicas)) := by
  rcases selector.selectRedundantNodesBy_cases pathHash nodeHash path hnonempty hnodup hreplicas
    with ⟨-, houtcome⟩ | ⟨⟨i, hi, hopposite⟩, -⟩
  · exact houtcome
  · obtain ⟨node, hnode⟩ :=
      exists_nearest pathHash nodeHash path hnodup (hi.trans_le hreplicas)
    obtain ⟨hmem, hleft⟩ := mem_left.mp (List.argmin_mem hnode)
    exact absurd (hopposite.2 node hmem hleft) (hdistance i hi node hmem)

/-- Whatever the hashes, distinct nearest nodes are selected exactly if in no round, with the first
node taken, all nodes that are left are at the greatest distance. -/
theorem selectsNearest_iff (hnonempty : selector.activeNodes ≠ [])
    (hnodup : selector.activeNodes.Nodup) (hreplicas : replicas ≤ selector.activeNodes.length) :
    SelectsNearest pathHash nodeHash path selector.activeNodes replicas
        (selector.selectRedundantNodesBy pathHash nodeHash path replicas) ↔
      ∀ i < replicas, ¬ Opposite pathHash nodeHash path selector.activeNodes i := by
  rcases selector.selectRedundantNodesBy_cases pathHash nodeHash path hnonempty hnodup hreplicas
    with ⟨hnone, houtcome⟩ | ⟨⟨i, hi, hopposite⟩, hselects⟩
  · rw [houtcome]
    exact iff_of_true (selectsNearest_nearestOrder hnodup hreplicas) hnone
  · exact iff_of_false hselects fun hnone => hnone i hi hopposite

theorem selectsNearest_two :
    SelectsNearest (fun _ => 10) (fun node => UInt64.ofNat node) "" [12, 7, 30] 2
      ((NodeSelector.mk [12, 7, 30] fun _ => none).selectRedundantNodesBy (fun _ => 10)
        (fun node => UInt64.ofNat node) "" 2) := by
  refine (selectsNearest_iff _ _ ⟨[12, 7, 30], fun _ => none⟩ "" (by decide) (by decide)
    (by decide)).mpr fun i hi hopposite => ?_
  have hlast := hopposite.2 30 (by decide)
  interval_cases i
  · exact absurd (hlast (by decide +kernel)) (by decide +kernel)
  · exact absurd (hlast (by decide +kernel)) (by decide +kernel)

/-- The path hashes to two less than 2^64 and the second node to zero, which the second replica is
placed farthest from. -/
theorem not_selectsNearest :
    let selector := NodeSelector.mk [1, 0x96050fe7abe7466b8ecf12e16cf52400] fun _ => none
    let path := "/user/nvgehwtmktzedyxpopkd"
    selector.selectRedundantNodes path 2 = .returned (.ok [1, 1]) ∧
      ¬ SelectsNearest hashString hashNode path selector.activeNodes 2
        (.returned (.ok [1, 1])) := by
  refine ⟨?_, ?_⟩
  · decide +kernel
  · exact fun h => absurd h.2.1 (by decide)

variable {selector path}

/-- A node that is not selected is not missed, if no node is at the greatest distance. -/
theorem selectRedundantNodes_erase {selected : List NodeId} {removed : NodeId}
    {selector' : NodeSelector} (hnodup : selector.activeNodes.Nodup)
    (hdistance : ∀ i < replicas, ∀ node ∈ selector.activeNodes,
      nodeDistance hashString hashNode path i node ≠ 2 ^ 64 - 1)
    (hpos : 1 ≤ replicas)
    (hselected : selector.selectRedundantNodes path replicas = .returned (.ok selected))
    (hremoved : removed ∉ selected)
    (hactive : selector'.activeNodes = selector.activeNodes.erase removed)
    (hremain : replicas ≤ selector'.activeNodes.length) :
    selector'.selectRedundantNodes path replicas = .returned (.ok selected) := by
  have hsublist := List.erase_sublist (a := removed) (l := selector.activeNodes)
  have hnonempty' : selector'.activeNodes ≠ [] := List.ne_nil_of_length_pos (hpos.trans hremain)
  have hreplicas : replicas ≤ selector.activeNodes.length :=
    hremain.trans (hactive ▸ hsublist.length_le)
  have hnonempty : selector.activeNodes ≠ [] := List.ne_nil_of_length_pos (hpos.trans hreplicas)
  have hnodup' : selector'.activeNodes.Nodup := hactive ▸ hnodup.sublist hsublist
  have hdistance' : ∀ i < replicas, ∀ node ∈ selector'.activeNodes,
      nodeDistance hashString hashNode path i node ≠ 2 ^ 64 - 1 := fun i hi node hnode =>
    hdistance i hi node (hsublist.subset (hactive ▸ hnode))
  rw [selectRedundantNodes_eq, selectRedundantNodesBy_of_distance hnonempty hnodup hreplicas
    hdistance, PlacementOutcome.returned.injEq, Except.ok.injEq] at hselected
  rw [← hselected] at hremoved
  have hcard := hreplicas.trans_eq (List.toFinset_card_of_nodup hnodup).symm
  rw [selectRedundantNodes_eq, selectRedundantNodesBy_of_distance hnonempty' hnodup' hremain
    hdistance', hactive, nearestOrder, order_erase hnodup hcard hremoved, ← hselected,
    nearestOrder]

theorem selectRedundantNodes_erase_first :
    (NodeSelector.mk [1, 2] fun _ => none).selectRedundantNodes "" 2 = .returned (.ok [1, 2]) := by
  have hselected : (NodeSelector.mk [3, 1, 2] fun _ => none).selectRedundantNodes "" 2 =
      .returned (.ok [1, 2]) := by decide +kernel
  have hremoved : (3 : NodeId) ∉ ([1, 2] : List NodeId) := by decide
  refine selectRedundantNodes_erase (by decide) ?_ (by decide) hselected hremoved rfl (by decide)
  intro i hi node hnode
  rw [List.mem_cons, List.mem_cons, List.mem_singleton] at hnode
  interval_cases i <;> rcases hnode with rfl | rfl | rfl <;> decide +kernel

end NodeSelector

end ActixPura
