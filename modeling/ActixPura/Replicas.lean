import ActixPura.StateMachine

/-!
# Replicas applying one log

Two replicas apply the same commands at their own wall-clock times. A clock gives the two
readings that `apply` may take for the command at each position of the log. Everything except
the two time stamps of created orders is a function of the commands alone. The stamps of a
created order are never written again, so two replicas end with equal maps exactly when their
clocks agreed at every `CreateOrder`.
-/

namespace ActixPura.TradingStateMachine

open Std (ExtTreeMap)

/-- The two readings of `Utc::now` that are taken for the command at each position. -/
abbrev Readings := ℕ → DateTime × DateTime

def applyAll (clock : Readings) (m : TradingStateMachine) :
    List StateMachineCommand → TradingStateMachine × List (Except String Unit)
  | [] => (m, [])
  | c :: cs =>
    let (m', result) := m.apply (clock 0).1 (clock 0).2 c
    let (m'', results) := applyAll (fun i => clock (i + 1)) m' cs
    (m'', result :: results)

@[simp] theorem applyAll_nil (clock : Readings) (m : TradingStateMachine) :
    m.applyAll clock [] = (m, []) := rfl

@[simp] theorem applyAll_cons_fst (clock : Readings) (m : TradingStateMachine)
    (c : StateMachineCommand) (cs : List StateMachineCommand) :
    (m.applyAll clock (c :: cs)).1 =
      ((m.apply (clock 0).1 (clock 0).2 c).1.applyAll (fun i => clock (i + 1)) cs).1 := rfl

@[simp] theorem applyAll_cons_snd (clock : Readings) (m : TradingStateMachine)
    (c : StateMachineCommand) (cs : List StateMachineCommand) :
    (m.applyAll clock (c :: cs)).2 = (m.apply (clock 0).1 (clock 0).2 c).2 ::
      ((m.apply (clock 0).1 (clock 0).2 c).1.applyAll (fun i => clock (i + 1)) cs).2 := rfl

/-- The replicas hold the same maps and answered every command alike. -/
def Agree (r r' : TradingStateMachine × List (Except String Unit)) : Prop :=
  r.1.orders = r'.1.orders ∧ r.1.executions = r'.1.executions ∧
    r.1.accounts = r'.1.accounts ∧ r.2 = r'.2

/-- The clocks give the same readings at every position that creates an order. -/
def AgreeAtCreations (clock clock' : Readings) (cs : List StateMachineCommand) : Prop :=
  ∀ i request, cs[i]? = some (.createOrder request) → clock i = clock' i

theorem agreeAtCreations_cons {clock clock' : Readings} {c : StateMachineCommand}
    {cs : List StateMachineCommand} : AgreeAtCreations clock clock' (c :: cs) ↔
      (∀ request, c = .createOrder request → clock 0 = clock' 0) ∧
        AgreeAtCreations (fun i => clock (i + 1)) (fun i => clock' (i + 1)) cs := by
  constructor
  · intro h
    refine ⟨fun request hc => h 0 request ?_, fun i request hi => h (i + 1) request hi⟩
    simp [hc]
  · rintro ⟨h0, hs⟩ i request hi
    cases i with
    | zero => exact h0 request (by simpa using hi)
    | succ i => exact hs i request (by simpa using hi)

/-! ## What does not depend on the clock -/

def unstamped (o : Order) : Order := { o with createdAt := 0, updatedAt := 0 }

/-- The machines differ at most in the stamps of their orders and in the applied position. -/
structure SameButStamps (m m' : TradingStateMachine) : Prop where
  orders : ∀ id : String, m.orders[id]?.map unstamped = m'.orders[id]?.map unstamped
  executions : m.executions = m'.executions
  accounts : m.accounts = m'.accounts
  nextOrderId : m.nextOrderId = m'.nextOrderId
  nextExecutionId : m.nextExecutionId = m'.nextExecutionId

theorem SameButStamps.apply {m m' : TradingStateMachine} (h : SameButStamps m m')
    (t u t' u' : DateTime) (c : StateMachineCommand) :
    SameButStamps (m.apply t u c).1 (m'.apply t' u' c).1 ∧
      (m.apply t u c).2 = (m'.apply t' u' c).2 := by
  cases c with
  | createOrder request =>
      refine ⟨⟨fun id => ?_, h.executions, h.accounts, ?_, h.nextExecutionId⟩, rfl⟩
      · simp only [TradingStateMachine.apply, ExtTreeMap.getElem?_insert, h.nextOrderId]
        split_ifs
        · rfl
        · exact h.orders id
      · simp only [TradingStateMachine.apply, h.nextOrderId]
  | updateOrderStatus orderId newStatus =>
      have hid := h.orders orderId
      cases ho : m.orders[orderId]? with
      | none =>
          rw [ho, Option.map_none, eq_comm, Option.map_eq_none_iff] at hid
          simp only [TradingStateMachine.apply, ho, hid]
          exact ⟨h, trivial⟩
      | some order =>
          rw [ho, Option.map_some, eq_comm, Option.map_eq_some_iff] at hid
          obtain ⟨order', ho', heq⟩ := hid
          simp only [TradingStateMachine.apply, ho, ho']
          refine ⟨⟨fun id => ?_, h.executions, h.accounts, h.nextOrderId, h.nextExecutionId⟩,
            trivial⟩
          simp only [ExtTreeMap.getElem?_insert]
          split_ifs
          · simp only [unstamped, Order.mk.injEq] at heq
            simp [unstamped, heq]
          · exact h.orders id
  | addExecution execution =>
      refine ⟨⟨h.orders, ?_, h.accounts, h.nextOrderId, ?_⟩, rfl⟩
      · simp only [TradingStateMachine.apply, h.executions, h.nextExecutionId]
      · simp only [TradingStateMachine.apply, h.nextExecutionId]
  | updateAccount account =>
      refine ⟨⟨h.orders, h.executions, ?_, h.nextOrderId, h.nextExecutionId⟩, rfl⟩
      simp only [TradingStateMachine.apply, h.accounts]
  | adminCommand command => cases command <;> exact ⟨h, rfl⟩

/-- Whatever the clocks show, the replicas answer alike and differ at most in the stamps. -/
theorem SameButStamps.applyAll {m m' : TradingStateMachine} (h : SameButStamps m m')
    (clock clock' : Readings) (cs : List StateMachineCommand) :
    SameButStamps (m.applyAll clock cs).1 (m'.applyAll clock' cs).1 ∧
      (m.applyAll clock cs).2 = (m'.applyAll clock' cs).2 := by
  induction cs generalizing clock clock' m m' with
  | nil => exact ⟨h, rfl⟩
  | cons c cs ih =>
      obtain ⟨hm, hresult⟩ := h.apply (clock 0).1 (clock 0).2 (clock' 0).1 (clock' 0).2 c
      obtain ⟨hrest, hresults⟩ := ih hm (fun i => clock (i + 1)) (fun i => clock' (i + 1))
      refine ⟨hrest, ?_⟩
      rw [applyAll_cons_snd, applyAll_cons_snd, hresult, hresults]

theorem agree_iff_orders_eq (clock clock' : Readings) (m : TradingStateMachine)
    (cs : List StateMachineCommand) :
    Agree (m.applyAll clock cs) (m.applyAll clock' cs) ↔
      (m.applyAll clock cs).1.orders = (m.applyAll clock' cs).1.orders := by
  have hm : SameButStamps m m := ⟨fun _ => rfl, rfl, rfl, rfl, rfl⟩
  obtain ⟨hsame, hresults⟩ := hm.applyAll clock clock' cs
  exact ⟨fun h => h.1, fun h => ⟨h, hsame.executions, hsame.accounts, hresults⟩⟩

/-! ## The stamps of created orders -/

/-- The name of the `n`-th created order. -/
def orderName (n : ℕ) : String := s!"order-{n}"

theorem orderName_injective : Function.Injective orderName := by
  intro a b h
  have hs : "order-" ++ Nat.repr a = "order-" ++ Nat.repr b := by
    simpa [orderName] using h
  exact Nat.repr_injective (String.append_right_inj _ |>.mp hs)

def stamps (m : TradingStateMachine) (id : String) : Option (DateTime × DateTime) :=
  m.orders[id]?.map fun o => (o.createdAt, o.updatedAt)

theorem stamps_created (t u : DateTime) (m : TradingStateMachine) (request : OrderRequest) :
    (m.apply t u (.createOrder request)).1.stamps (orderName m.nextOrderId) = some (t, u) := by
  simp [stamps, apply, orderName]

theorem nextOrderId_le_apply (t u : DateTime) (m : TradingStateMachine)
    (c : StateMachineCommand) : m.nextOrderId ≤ (m.apply t u c).1.nextOrderId := by
  fun_cases apply t u m c <;> simp [*]

/-- A command writes the stamps of no order but the one it creates. -/
theorem stamps_apply {t u : DateTime} {m : TradingStateMachine} {c : StateMachineCommand}
    {id : String} (hid : id ≠ orderName m.nextOrderId) :
    (m.apply t u c).1.stamps id = m.stamps id := by
  cases c with
  | createOrder request =>
      have hne : orderName m.nextOrderId ≠ id := hid.symm
      simp only [stamps, apply]
      rw [ExtTreeMap.getElem?_insert, if_neg]
      simpa [orderName] using hne
  | updateOrderStatus orderId newStatus =>
      cases ho : m.orders[orderId]? with
      | none => simp only [apply, ho]
      | some order =>
          by_cases heq : orderId = id
          · subst heq
            simp [stamps, apply, ho]
          · simp [stamps, apply, ho, ExtTreeMap.getElem?_insert, heq]
  | addExecution execution => rfl
  | updateAccount account => rfl
  | adminCommand command => cases command <;> rfl

theorem stamps_applyAll {clock : Readings} {m : TradingStateMachine}
    {cs : List StateMachineCommand} {k : ℕ} (hk : k < m.nextOrderId) :
    (m.applyAll clock cs).1.stamps (orderName k) = m.stamps (orderName k) := by
  induction cs generalizing clock m with
  | nil => rfl
  | cons c cs ih =>
      have hnext := nextOrderId_le_apply (clock 0).1 (clock 0).2 m c
      rw [applyAll_cons_fst, ih (by omega)]
      refine stamps_apply fun heq => ?_
      exact absurd (orderName_injective heq) (by omega)

/-- A command that creates no order ignores the clock. -/
theorem apply_eq_of_ne_create (t u t' u' : DateTime) {m : TradingStateMachine}
    {c : StateMachineCommand} (hc : ∀ request, c ≠ .createOrder request) :
    m.apply t u c = m.apply t' u' c := by
  cases c with
  | createOrder request => exact absurd rfl (hc request)
  | updateOrderStatus orderId newStatus => rfl
  | addExecution execution => rfl
  | updateAccount account => rfl
  | adminCommand command => cases command <;> rfl

theorem applyAll_eq {clock clock' : Readings} {m : TradingStateMachine}
    {cs : List StateMachineCommand} (h : AgreeAtCreations clock clock' cs) :
    m.applyAll clock cs = m.applyAll clock' cs := by
  induction cs generalizing clock clock' m with
  | nil => rfl
  | cons c cs ih =>
      obtain ⟨h0, hs⟩ := agreeAtCreations_cons.mp h
      have happly : m.apply (clock 0).1 (clock 0).2 c = m.apply (clock' 0).1 (clock' 0).2 c := by
        by_cases hc : ∃ request, c = .createOrder request
        · obtain ⟨request, hc⟩ := hc
          rw [h0 request hc]
        · exact apply_eq_of_ne_create _ _ _ _ fun request heq => hc ⟨request, heq⟩
      apply Prod.ext
      · rw [applyAll_cons_fst, applyAll_cons_fst, happly, ih hs]
      · rw [applyAll_cons_snd, applyAll_cons_snd, happly, ih hs]

/-- Equal orders at the end were stamped alike when they were created. -/
theorem agreeAtCreations_of_orders_eq {clock clock' : Readings} {m : TradingStateMachine}
    {cs : List StateMachineCommand}
    (h : (m.applyAll clock cs).1.orders = (m.applyAll clock' cs).1.orders) :
    AgreeAtCreations clock clock' cs := by
  induction cs generalizing clock clock' m with
  | nil => intro i request hi; simp at hi
  | cons c cs ih =>
      rw [applyAll_cons_fst, applyAll_cons_fst] at h
      have h0 : ∀ request, c = .createOrder request → clock 0 = clock' 0 := by
        rintro request rfl
        have hstamps : (m.applyAll clock (.createOrder request :: cs)).1.stamps
              (orderName m.nextOrderId) =
            (m.applyAll clock' (.createOrder request :: cs)).1.stamps
              (orderName m.nextOrderId) := by
          unfold stamps
          rw [applyAll_cons_fst, applyAll_cons_fst, h]
        have hlt : m.nextOrderId < m.nextOrderId + 1 := by omega
        rw [applyAll_cons_fst, applyAll_cons_fst, stamps_applyAll hlt, stamps_applyAll hlt,
          stamps_created, stamps_created] at hstamps
        exact Option.some_injective _ hstamps
      refine agreeAtCreations_cons.mpr ⟨h0, ?_⟩
      by_cases hc : ∃ request, c = .createOrder request
      · obtain ⟨request, hc⟩ := hc
        rw [h0 request hc] at h
        exact ih h
      · rw [apply_eq_of_ne_create _ _ (clock' 0).1 (clock' 0).2
          fun request heq => hc ⟨request, heq⟩] at h
        exact ih h

/-- Two replicas that start from `new` and apply one log agree exactly when their clocks gave the
same readings at every order creation. -/
theorem replicas_agree_iff (clock clock' : Readings) (cs : List StateMachineCommand) :
    Agree (new.applyAll clock cs) (new.applyAll clock' cs) ↔
      AgreeAtCreations clock clock' cs := by
  rw [agree_iff_orders_eq]
  constructor
  · exact agreeAtCreations_of_orders_eq
  · intro h
    rw [applyAll_eq h]

/-- One order, created at time 0 by one replica and at time 1 by the other. -/
theorem not_replicas_agree : ¬ ∀ (cs : List StateMachineCommand) (clock clock' : Readings),
    Agree (new.applyAll clock cs) (new.applyAll clock' cs) := by
  intro h
  have horders := (h [.createOrder ⟨none, "BTC", .buy, none, 1, "c", .market⟩]
    (fun _ => (0, 0)) (fun _ => (1, 1))).1
  have hstamps : (0, 0) = ((1, 1) : DateTime × DateTime) := by
    have hfirst := congrArg
      (fun orders => orders["order-1"]?.map fun o : Order => (o.createdAt, o.updatedAt)) horders
    exact Option.some_injective _ hfirst
  exact absurd hstamps (by decide)

end ActixPura.TradingStateMachine
