import ActixPura.Placement

/-!
# Fairness of the round robin

A stored index may come from more nodes than there are now. It is taken modulo the number of nodes
when a node is selected and again when the next index is stored, so the calls from any index on go
through a rotation of the list of nodes over and over.
-/

namespace ActixPura

namespace PlacementStrategyImpl

/-- What a number of calls return, and the state after them. -/
def roundRobin (selector : NodeSelector) :
    ℕ → PlacementStrategyImpl → List (PlacementOutcome NodeId) × PlacementStrategyImpl
  | 0, placement => ([], placement)
  | m + 1, placement =>
    let (outcome, placement) := placement.selectRoundRobinNode selector
    let (outcomes, placement) := roundRobin selector m placement
    (outcome :: outcomes, placement)

variable {selector : NodeSelector} (placement : PlacementStrategyImpl)

theorem roundRobin_add (a b : ℕ) : roundRobin selector (a + b) placement =
    ((roundRobin selector a placement).1 ++
        (roundRobin selector b (roundRobin selector a placement).2).1,
      (roundRobin selector b (roundRobin selector a placement).2).2) := by
  induction a generalizing placement with
  | zero => rw [Nat.zero_add]; rfl
  | succ a ih =>
      rw [Nat.succ_add]
      simp only [roundRobin, ih, List.cons_append]

theorem selectRoundRobinNode_eq (h : selector.activeNodes ≠ []) :
    placement.selectRoundRobinNode selector =
      (nodeAt selector.activeNodes (placement.roundRobinIndex % selector.activeNodes.length),
        { placement with
          roundRobinIndex := (placement.roundRobinIndex + 1) % selector.activeNodes.length }) := by
  simp only [selectRoundRobinNode, if_neg h]

theorem roundRobin_eq (h : selector.activeNodes ≠ []) (m : ℕ) :
    (roundRobin selector m placement).1 = (List.range m).map fun k =>
      nodeAt selector.activeNodes
        ((placement.roundRobinIndex + k) % selector.activeNodes.length) := by
  induction m generalizing placement with
  | zero => rfl
  | succ m ih =>
      simp only [roundRobin, selectRoundRobinNode_eq placement h, ih, List.range_succ_eq_map,
        List.map_cons, List.map_map, Nat.add_zero]
      congr 1
      refine List.map_congr_left fun k _ => ?_
      simp only [Function.comp_apply, Nat.mod_add_mod]
      congr 2
      omega

/-- As many calls as there are nodes go through the list once, from some node on. -/
theorem roundRobin_length_eq_rotate (h : selector.activeNodes ≠ []) :
    (roundRobin selector selector.activeNodes.length placement).1 =
      (selector.activeNodes.rotate placement.roundRobinIndex).map fun node =>
        .returned (.ok node) := by
  rw [roundRobin_eq placement h]
  refine List.ext_getElem (by simp) fun k hk _ => ?_
  have hlt : (placement.roundRobinIndex + k) % selector.activeNodes.length <
      selector.activeNodes.length := Nat.mod_lt _ (List.length_pos_of_ne_nil h)
  rw [List.getElem_map, List.getElem_range, List.getElem_map, List.getElem_rotate, nodeAt,
    List.getElem?_eq_getElem hlt]
  simp only [Nat.add_comm k]

theorem roundRobin_length_perm (h : selector.activeNodes ≠ []) :
    (roundRobin selector selector.activeNodes.length placement).1.Perm
      (selector.activeNodes.map fun node => .returned (.ok node)) := by
  rw [roundRobin_length_eq_rotate placement h]
  exact (List.rotate_perm _ _).map _

/-- How often a node is selected in a number of calls. -/
def selections (selector : NodeSelector) (m : ℕ) (placement : PlacementStrategyImpl)
    (node : NodeId) : ℕ :=
  (roundRobin selector m placement).1.count (.returned (.ok node))

theorem selections_add (a b : ℕ) (node : NodeId) : selections selector (a + b) placement node =
    selections selector a placement node +
      selections selector b (roundRobin selector a placement).2 node := by
  rw [selections, roundRobin_add, List.count_append]
  rfl

theorem selections_length (h : selector.activeNodes ≠ []) (node : NodeId) :
    selections selector selector.activeNodes.length placement node =
      selector.activeNodes.count node := by
  have hinjective : Function.Injective fun node : NodeId =>
      PlacementOutcome.returned (Except.ok node) := fun a b hab => by simpa using hab
  rw [selections, (roundRobin_length_perm placement h).count_eq]
  exact List.count_map_of_injective _ _ hinjective node

theorem selections_le_of_le {a b : ℕ} (h : a ≤ b) (node : NodeId) :
    selections selector a placement node ≤ selections selector b placement node := by
  rw [← Nat.add_sub_cancel' h, selections_add]
  exact Nat.le_add_right _ _

theorem selections_rounds (h : selector.activeNodes ≠ []) (q : ℕ) (node : NodeId) :
    selections selector (selector.activeNodes.length * q) placement node =
      selector.activeNodes.count node * q := by
  induction q generalizing placement with
  | zero => rfl
  | succ q ih =>
      rw [Nat.mul_succ, Nat.add_comm, selections_add, selections_length placement h, ih]
      ring

/-- The calls after the last whole round select a node at most once more for each time it is in the
list. -/
theorem exists_selections (h : selector.activeNodes ≠ []) (m : ℕ) (node : NodeId) :
    ∃ more ≤ selector.activeNodes.count node,
      selections selector m placement node =
        selector.activeNodes.count node * (m / selector.activeNodes.length) + more ∧
      (m % selector.activeNodes.length = 0 → more = 0) := by
  have hlt := Nat.mod_lt m (List.length_pos_of_ne_nil h)
  have hsplit : selections selector _ placement node = _ :=
    selections_add placement (selector.activeNodes.length * (m / selector.activeNodes.length))
      (m % selector.activeNodes.length) node
  rw [Nat.div_add_mod, selections_rounds placement h] at hsplit
  refine ⟨_, ?_, hsplit, fun hzero => ?_⟩
  · exact (selections_le_of_le _ hlt.le node).trans_eq (selections_length _ h node)
  · rw [hzero]
    rfl

/-- Calls rounded up to whole rounds. -/
theorem rounded_up {m n : ℕ} (hn : 0 < n) :
    (m % n = 0 → (m + n - 1) / n = m / n) ∧ (m % n ≠ 0 → (m + n - 1) / n = m / n + 1) := by
  have hlt := Nat.mod_lt m hn
  have hsplit : m + n - 1 = n * (m / n) + (m % n + n - 1) := by
    have hdivmod := Nat.div_add_mod m n
    omega
  rw [hsplit, Nat.mul_add_div hn]
  constructor
  · intro hzero
    have hrest : (m % n + n - 1) / n = 0 := Nat.div_eq_of_lt (by omega)
    rw [hrest, Nat.add_zero]
  · intro hne
    have hrest : (m % n + n - 1) / n = 1 := Nat.div_eq_of_lt_le (by omega) (by omega)
    rw [hrest]

/-- From any stored index on, every round of calls selects each of the nodes once, and any number of
calls select a node as often as there are rounds, rounded down or up. -/
theorem roundRobin_fair (selector : NodeSelector) (placement : PlacementStrategyImpl)
    (h : selector.activeNodes ≠ []) :
    let n := selector.activeNodes.length
    (∀ k, ((roundRobin selector (k + n) placement).1.drop k).Perm
      (selector.activeNodes.map fun node => .returned (.ok node))) ∧
    ∀ m node, selector.activeNodes.count node * (m / n) ≤ selections selector m placement node ∧
      selections selector m placement node ≤
        selector.activeNodes.count node * ((m + n - 1) / n) ∧
      (selector.activeNodes.count node = 1 →
        selections selector m placement node = m / n ∨
          selections selector m placement node = (m + n - 1) / n) := by
  dsimp only
  refine ⟨fun k => ?_, fun m node => ?_⟩
  · have hlength : (roundRobin selector k placement).1.length = k := by
      rw [roundRobin_eq placement h, List.length_map, List.length_range]
    rw [roundRobin_add, List.drop_left' hlength]
    exact roundRobin_length_perm _ h
  · obtain ⟨more, hmore, hsplit, hwhole⟩ := exists_selections placement h m node
    obtain ⟨hdown, hup⟩ := rounded_up (m := m) (List.length_pos_of_ne_nil h)
    rw [hsplit]
    by_cases hzero : m % selector.activeNodes.length = 0
    · rw [hwhole hzero, hdown hzero, Nat.add_zero]
      exact ⟨le_rfl, le_rfl, fun hcount => Or.inl (by rw [hcount, Nat.one_mul])⟩
    · rw [hup hzero, Nat.mul_succ]
      refine ⟨Nat.le_add_right _ _, Nat.add_le_add_left hmore _, fun hcount => ?_⟩
      rw [hcount, Nat.one_mul]
      rw [hcount] at hmore
      omega

/-- The index is left behind by more nodes. -/
theorem roundRobin_fair_three :
    let selector := NodeSelector.mk [5, 6, 7] fun _ => none
    let placement := PlacementStrategyImpl.mk 10 ∅
    selections selector 4 placement 6 = 4 / 3 ∨
      selections selector 4 placement 6 = (4 + 3 - 1) / 3 :=
  ((roundRobin_fair ⟨[5, 6, 7], fun _ => none⟩ ⟨10, ∅⟩ (by decide)).2 4 6).2.2 (by decide)

end PlacementStrategyImpl

end ActixPura
