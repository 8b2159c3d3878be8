import ActixPura.Replicas

/-!
# The identifiers of the state machine

`TradingStateMachine::apply` numbers the orders and the executions it creates, each kind by a
counter of its own. After any list of commands the two maps hold exactly the names given out so far:
the order of the `j`-th `CreateOrder` stands under number `j` with the status it was last given, and
the `j`-th execution under its number as it was added.
-/

namespace ActixPura.TradingStateMachine

open Std (ExtTreeMap)

/-- The name of the `n`-th added execution. -/
def execName (n : ℕ) : String := s!"exec-{n}"

theorem execName_injective : Function.Injective execName := by
  intro a b h
  have hs : "exec-" ++ Nat.repr a = "exec-" ++ Nat.repr b := by
    simpa [execName] using h
  exact Nat.repr_injective (String.append_right_inj _ |>.mp hs)

def requests (cs : List StateMachineCommand) : List OrderRequest :=
  cs.filterMap fun
    | .createOrder request => some request
    | _ => none

def addedExecutions (cs : List StateMachineCommand) : List Execution :=
  cs.filterMap fun
    | .addExecution execution => some execution
    | _ => none

/-- The statuses given to an order, in this order. -/
def statuses (id : String) (cs : List StateMachineCommand) : List OrderStatus :=
  cs.filterMap fun
    | .updateOrderStatus orderId newStatus => if orderId = id then some newStatus else none
    | _ => none

/-- The order that a request asks for, as it is created. -/
def createdOrder (id : String) (request : OrderRequest) (stamps : DateTime × DateTime) : Order where
  orderId := id
  accountId := request.clientId
  symbol := request.symbol
  side := request.side
  orderType := request.orderType
  quantity := request.quantity
  price := request.price
  stopPrice := none
  status := .new
  filledQuantity := 0
  createdAt := stamps.1
  updatedAt := stamps.2

/-- The maps hold the names that the counters have passed. -/
structure Named (m : TradingStateMachine) : Prop where
  orders : ∀ id : String, id ∈ m.orders ↔ ∃ j, 1 ≤ j ∧ j < m.nextOrderId ∧ id = orderName j
  executions : ∀ id : String,
    id ∈ m.executions ↔ ∃ j, 1 ≤ j ∧ j < m.nextExecutionId ∧ id = execName j

variable {m : TradingStateMachine}

/-- Inserting under the next name names one more. -/
theorem mem_insert_name {α : Type} {map : ExtTreeMap String α compare} (name : ℕ → String)
    {next : ℕ} (hpos : 1 ≤ next)
    (h : ∀ id : String, id ∈ map ↔ ∃ j, 1 ≤ j ∧ j < next ∧ id = name j) (a : α) (id : String) :
    id ∈ map.insert (name next) a ↔ ∃ j, 1 ≤ j ∧ j < next + 1 ∧ id = name j := by
  rw [ExtTreeMap.mem_insert, Std.compare_eq_iff_eq, h]
  constructor
  · rintro (rfl | ⟨j, hj, hlt, rfl⟩)
    · exact ⟨next, hpos, Nat.lt_succ_self next, rfl⟩
    · exact ⟨j, hj, Nat.lt_succ_of_lt hlt, rfl⟩
  · rintro ⟨j, hj, hlt, rfl⟩
    rcases (Nat.le_of_lt_succ hlt).eq_or_lt with rfl | hlt
    · exact Or.inl rfl
    · exact Or.inr ⟨j, hj, hlt, rfl⟩

theorem counters_apply (t u : DateTime) (m : TradingStateMachine) (c : StateMachineCommand) :
    (m.apply t u c).1.nextOrderId = m.nextOrderId + (requests [c]).length ∧
      (m.apply t u c).1.nextExecutionId = m.nextExecutionId + (addedExecutions [c]).length := by
  cases c with
  | createOrder request => exact ⟨rfl, rfl⟩
  | updateOrderStatus orderId newStatus =>
      simp only [apply]
      cases m.orders[orderId]? <;> exact ⟨rfl, rfl⟩
  | addExecution execution => exact ⟨rfl, rfl⟩
  | updateAccount account => exact ⟨rfl, rfl⟩
  | adminCommand command => cases command <;> exact ⟨rfl, rfl⟩

theorem counters_applyAll (clock : Readings) (m : TradingStateMachine)
    (cs : List StateMachineCommand) :
    (m.applyAll clock cs).1.nextOrderId = m.nextOrderId + (requests cs).length ∧
      (m.applyAll clock cs).1.nextExecutionId =
        m.nextExecutionId + (addedExecutions cs).length := by
  induction cs generalizing clock m with
  | nil => exact ⟨rfl, rfl⟩
  | cons c cs ih =>
      obtain ⟨horder, hexec⟩ := counters_apply (clock 0).1 (clock 0).2 m c
      obtain ⟨horders, hexecs⟩ := ih (fun i => clock (i + 1)) (m.apply (clock 0).1 (clock 0).2 c).1
      have hreq : (requests (c :: cs)).length = (requests [c]).length + (requests cs).length := by
        rw [← List.length_append, requests, requests, requests, ← List.filterMap_append]
        rfl
      have hadd : (addedExecutions (c :: cs)).length =
          (addedExecutions [c]).length + (addedExecutions cs).length := by
        rw [← List.length_append, addedExecutions, addedExecutions, addedExecutions,
          ← List.filterMap_append]
        rfl
      rw [applyAll_cons_fst, horders, hexecs, horder, hexec, hreq, hadd]
      exact ⟨Nat.add_assoc _ _ _, Nat.add_assoc _ _ _⟩

theorem Named.apply (h : m.Named) (horder : 1 ≤ m.nextOrderId) (hexec : 1 ≤ m.nextExecutionId)
    (t u : DateTime) (c : StateMachineCommand) : (m.apply t u c).1.Named := by
  cases c with
  | createOrder request =>
      exact ⟨fun id => mem_insert_name orderName horder h.orders _ id, h.executions⟩
  | updateOrderStatus orderId newStatus =>
      simp only [TradingStateMachine.apply]
      cases horder : m.orders[orderId]? with
      | none => exact h
      | some order =>
          refine ⟨fun id => ?_, h.executions⟩
          rw [ExtTreeMap.mem_insert, Std.compare_eq_iff_eq, ← h.orders]
          have hmem : orderId ∈ m.orders :=
            ExtTreeMap.mem_iff_isSome_getElem?.mpr (by rw [horder]; rfl)
          exact ⟨fun hid => hid.elim (fun heq => heq ▸ hmem) fun hold => hold, Or.inr⟩
  | addExecution execution =>
      exact ⟨h.orders, fun id => mem_insert_name execName hexec h.executions _ id⟩
  | updateAccount account => exact ⟨h.orders, h.executions⟩
  | adminCommand command => cases command <;> exact h

theorem Named.applyAll (h : m.Named) (horder : 1 ≤ m.nextOrderId) (hexec : 1 ≤ m.nextExecutionId)
    (clock : Readings) (cs : List StateMachineCommand) : (m.applyAll clock cs).1.Named := by
  induction cs generalizing clock m with
  | nil => exact h
  | cons c cs ih =>
      obtain ⟨ho, he⟩ := counters_apply (clock 0).1 (clock 0).2 m c
      rw [applyAll_cons_fst]
      exact ih (h.apply horder hexec _ _ c) (by omega) (by omega) _

theorem new_named : new.Named := by
  constructor
  · intro id
    simp only [new, ExtTreeMap.not_mem_empty, false_iff]
    rintro ⟨j, hj, hlt, -⟩
    omega
  · intro id
    simp only [new, ExtTreeMap.not_mem_empty, false_iff]
    rintro ⟨j, hj, hlt, -⟩
    omega

/-- A command leaves an order that it does not create as it is, except for the status that it may
give it. -/
theorem getElem?_orders_apply (t u : DateTime) {c : StateMachineCommand} {id : String}
    (hid : id ≠ orderName m.nextOrderId) {o : Order} (ho : m.orders[id]? = some o) :
    (m.apply t u c).1.orders[id]? =
      some { o with status := (statuses id [c]).getLast?.getD o.status } := by
  cases c with
  | createOrder request =>
      have hne : ¬ orderName m.nextOrderId = id := fun h => hid h.symm
      simp only [apply]
      rw [ExtTreeMap.getElem?_insert, if_neg (by simpa [orderName] using hne)]
      exact ho
  | updateOrderStatus orderId newStatus =>
      by_cases heq : orderId = id
      · subst heq
        simp [apply, ho, statuses]
      · have hstatuses : statuses id [.updateOrderStatus orderId newStatus] = [] := by
          simp [statuses, heq]
        rw [hstatuses]
        cases horder : m.orders[orderId]? with
        | none => simpa [apply, horder] using ho
        | some order => simpa [apply, horder, ExtTreeMap.getElem?_insert, heq] using ho
  | addExecution execution => exact ho
  | updateAccount account => exact ho
  | adminCommand command => cases command <;> exact ho

theorem getElem?_orders_applyAll (clock : Readings) (cs : List StateMachineCommand) {j : ℕ}
    (hj : j < m.nextOrderId) {o : Order} (ho : m.orders[orderName j]? = some o) :
    (m.applyAll clock cs).1.orders[orderName j]? =
      some { o with status := (statuses (orderName j) cs).getLast?.getD o.status } := by
  induction cs generalizing clock m o with
  | nil => exact ho
  | cons c cs ih =>
      have hne : orderName j ≠ orderName m.nextOrderId := fun h =>
        absurd (orderName_injective h) hj.ne
      have hnext := nextOrderId_le_apply (clock 0).1 (clock 0).2 m c
      have hsplit : statuses (orderName j) (c :: cs) =
          statuses (orderName j) [c] ++ statuses (orderName j) cs := by
        rw [statuses, statuses, statuses, ← List.filterMap_append]
        rfl
      rw [applyAll_cons_fst, ih _ (by omega) (getElem?_orders_apply _ _ hne ho), hsplit,
        List.getLast?_append]
      cases (statuses (orderName j) cs).getLast? <;> rfl

theorem getElem?_executions_applyAll (clock : Readings) (cs : List StateMachineCommand) {j : ℕ}
    (hj : j < m.nextExecutionId) :
    (m.applyAll clock cs).1.executions[execName j]? = m.executions[execName j]? := by
  induction cs generalizing clock m with
  | nil => rfl
  | cons c cs ih =>
      obtain ⟨-, hnext⟩ := counters_apply (clock 0).1 (clock 0).2 m c
      rw [applyAll_cons_fst, ih _ (by omega)]
      cases c with
      | createOrder request => rfl
      | updateOrderStatus orderId newStatus =>
          simp only [apply]
          cases m.orders[orderId]? <;> rfl
      | addExecution execution =>
          have hne : ¬ execName m.nextExecutionId = execName j := fun h =>
            absurd (execName_injective h) hj.ne'
          simp only [apply]
          rw [ExtTreeMap.getElem?_insert, if_neg (by simpa [execName] using hne)]
      | updateAccount account => rfl
      | adminCommand command => cases command <;> rfl

theorem applyAll_append (clock : Readings) (m : TradingStateMachine)
    (cs ds : List StateMachineCommand) :
    (m.applyAll clock (cs ++ ds)).1 =
      ((m.applyAll clock cs).1.applyAll (fun i => clock (i + cs.length)) ds).1 := by
  induction cs generalizing clock m with
  | nil => rfl
  | cons c cs ih =>
      rw [List.cons_append, applyAll_cons_fst, applyAll_cons_fst, ih]
      simp only [List.length_cons, Nat.add_assoc]

theorem getElem?_orders_create (clock : Readings) (m : TradingStateMachine)
    (before : List StateMachineCommand) (request : OrderRequest)
    (after : List StateMachineCommand) :
    let id := orderName (m.applyAll clock before).1.nextOrderId
    (m.applyAll clock (before ++ .createOrder request :: after)).1.orders[id]? =
      some { createdOrder id request (clock before.length) with
        status := (statuses id after).getLast?.getD .new } := by
  intro id
  rw [applyAll_append, applyAll_cons_fst, Nat.zero_add]
  refine getElem?_orders_applyAll _ after (Nat.lt_succ_self _)
    (o := createdOrder id request (clock before.length)) ?_
  simp [apply, id, orderName, createdOrder]

theorem getElem?_executions_add (clock : Readings) (m : TradingStateMachine)
    (before : List StateMachineCommand) (execution : Execution)
    (after : List StateMachineCommand) :
    let id := execName (m.applyAll clock before).1.nextExecutionId
    (m.applyAll clock (before ++ .addExecution execution :: after)).1.executions[id]? =
      some { execution with executionId := id } := by
  intro id
  rw [applyAll_append, applyAll_cons_fst, Nat.zero_add]
  refine (getElem?_executions_applyAll _ after (Nat.lt_succ_self _)).trans ?_
  simp [apply, id, execName]

/-- The names in use, what stands under each, and the refusal of a status for an order that is not
there. -/
theorem identifiers (clock : Readings) (cs : List StateMachineCommand) :
    let m := (new.applyAll clock cs).1
    (∀ id : String, id ∈ m.orders ↔ ∃ j, 1 ≤ j ∧ j ≤ (requests cs).length ∧ id = orderName j) ∧
    (∀ id : String, id ∈ m.executions ↔
      ∃ j, 1 ≤ j ∧ j ≤ (addedExecutions cs).length ∧ id = execName j) ∧
    (∀ before request after, cs = before ++ .createOrder request :: after →
      let id := orderName ((requests before).length + 1)
      m.orders[id]? = some { createdOrder id request (clock before.length) with
        status := (statuses id after).getLast?.getD .new }) ∧
    (∀ before execution after, cs = before ++ .addExecution execution :: after →
      let id := execName ((addedExecutions before).length + 1)
      m.executions[id]? = some { execution with executionId := id }) ∧
    ∀ id newStatus t u, (∀ j, 1 ≤ j → j ≤ (requests cs).length → id ≠ orderName j) →
      m.apply t u (.updateOrderStatus id newStatus) = (m, .error s!"订单不存在: {id}") := by
  intro m
  obtain ⟨horders, hexecs⟩ := counters_applyAll clock new cs
  have hnamed : m.Named := new_named.applyAll le_rfl le_rfl clock cs
  have hnextOrder : m.nextOrderId = 1 + (requests cs).length := horders
  have hnextExec : m.nextExecutionId = 1 + (addedExecutions cs).length := hexecs
  have hkeys : ∀ id : String, id ∈ m.orders ↔
      ∃ j, 1 ≤ j ∧ j ≤ (requests cs).length ∧ id = orderName j := by
    intro id
    rw [hnamed.orders, hnextOrder]
    simp only [Nat.lt_one_add_iff]
  refine ⟨hkeys, fun id => ?_, ?_, ?_, ?_⟩
  · rw [hnamed.executions, hnextExec]
    simp only [Nat.lt_one_add_iff]
  · rintro before request after rfl id
    have hid : id = orderName (new.applyAll clock before).1.nextOrderId := by
      rw [(counters_applyAll clock new before).1, Nat.add_comm]
      rfl
    rw [hid]
    exact getElem?_orders_create clock new before request after
  · rintro before execution after rfl id
    have hid : id = execName (new.applyAll clock before).1.nextExecutionId := by
      rw [(counters_applyAll clock new before).2, Nat.add_comm]
      rfl
    rw [hid]
    exact getElem?_executions_add clock new before execution after
  · intro id newStatus t u hid
    have habsent : m.orders[id]? = none := by
      refine ExtTreeMap.getElem?_eq_none fun hmem => ?_
      obtain ⟨j, hj, hle, rfl⟩ := (hkeys id).mp hmem
      exact hid j hj hle rfl
    simp only [apply, habsent]

def marketBuy : OrderRequest := ⟨none, "BTC", .buy, none, 1, "c", .market⟩

/-- The second of two orders, filled after both were created. -/
theorem identifiers_secondOrder :
    let cs := [.createOrder marketBuy, .createOrder marketBuy, .updateOrderStatus "order-2" .filled]
    (new.applyAll (fun _ => (0, 0)) cs).1.orders["order-2"]? =
      some { createdOrder "order-2" marketBuy (0, 0) with status := .filled } :=
  (identifiers (fun _ => (0, 0)) _).2.2.1 [.createOrder marketBuy] marketBuy
    [.updateOrderStatus "order-2" .filled] rfl

end ActixPura.TradingStateMachine
