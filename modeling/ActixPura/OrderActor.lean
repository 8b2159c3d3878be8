import ActixPura.OrderModel

/-!
# The order actor

`actor/order.rs`. The actor keeps its own copy of every order in `orders`. Creating an order
stores a copy and sends another one to the execution engine; cancelling changes the stored copy
only. The answer of the engine is discarded, so the stored copies never see a fill.
-/

namespace ActixPura

open Std (ExtTreeMap)

/-- An actor reference is its path. -/
abbrev ActorRef := String

inductive OrderResult
  | accepted (orderId : String)
  | rejected (reason : String)
  | error (message : String)
  deriving DecidableEq, Repr

structure CancelOrderRequest where
  orderId : String
  clientId : String
  deriving DecidableEq, Repr

inductive OrderQuery
  | byId (id : String)
  | byAccount (accountId : String)
  | bySymbol (symbol : String)
  | byStatus (status : OrderStatus)
  | all
  deriving DecidableEq, Repr

/-- The `Debug` text of a status. -/
def OrderStatus.debug : OrderStatus → String
  | .new => "New"
  | .accepted => "Accepted"
  | .partiallyFilled => "PartiallyFilled"
  | .filled => "Filled"
  | .cancelled => "Cancelled"
  | .rejected => "Rejected"
  | .expired => "Expired"

structure OrderActor where
  nodeId : String
  orders : ExtTreeMap String Order compare
  executionEngine : Option ActorRef
  riskManager : Option ActorRef

namespace OrderActor

def new (nodeId : String) : OrderActor := ⟨nodeId, ∅, none, none⟩

def setExecutionEngine (a : OrderActor) (engine : ActorRef) : OrderActor :=
  { a with executionEngine := some engine }

def setRiskManager (a : OrderActor) (manager : ActorRef) : OrderActor :=
  { a with riskManager := some manager }

def storeOrder (a : OrderActor) (o : Order) : OrderActor :=
  { a with orders := a.orders.insert o.orderId o }

def queryOrders (a : OrderActor) : OrderQuery → List Order
  | .byId id =>
    match a.orders[id]? with
    | some o => [o]
    | none => []
  | .byAccount accountId => a.orders.values.filter (fun o => o.accountId == accountId)
  | .bySymbol symbol => a.orders.values.filter (fun o => o.symbol == symbol)
  | .byStatus status => a.orders.values.filter (fun o => o.status == status)
  | .all => a.orders.values

def cancelOrder (a : OrderActor) (orderId clientId : String) (now : DateTime) :
    OrderActor × OrderResult :=
  match a.orders[orderId]? with
  | none => (a, .rejected s!"Order {orderId} not found")
  | some o =>
    if o.accountId ≠ clientId then
      (a, .rejected s!"Order {orderId} does not belong to account {clientId}")
    else if o.canCancel = false then
      (a, .rejected s!"Order {orderId} cannot be cancelled, status: {o.status.debug}")
    else ({ a with orders := a.orders.insert orderId (o.updateStatus .cancelled now) },
      .accepted orderId)

/-- The check logs and passes, with and without a risk manager. -/
def performRiskCheck (a : OrderActor) (_request : OrderRequest) : Bool :=
  match a.riskManager with
  | some _ => true
  | none => true

/-- The answer and the message for the engine. The id of the answer and the id of the stored
order are two readings of the generator when the request has none. -/
def createAndExecuteOrder (a : OrderActor) (request : OrderRequest)
    (answerUuid orderUuid : String) (now : DateTime) : OrderActor × OrderResult × Option Order :=
  let orderId := request.orderId.getD answerUuid
  let order := Order.fromRequest orderUuid now request
  (a.storeOrder order, .accepted orderId, a.executionEngine.map (fun _ => order))

def handleCreateOrder (a : OrderActor) (request : OrderRequest) (answerUuid orderUuid : String)
    (now : DateTime) : OrderActor × OrderResult × Option Order :=
  if a.performRiskCheck request then a.createAndExecuteOrder request answerUuid orderUuid now
  else (a, .rejected "Risk check failed", none)

def handleCancelOrder (a : OrderActor) (request : CancelOrderRequest) (now : DateTime) :
    OrderActor × OrderResult :=
  a.cancelOrder request.orderId request.clientId now

/-- A query reads the store and leaves it as it is. -/
def handleQueryOrder (a : OrderActor) (query : OrderQuery) : OrderActor × List Order :=
  (a, a.queryOrders query)

theorem handleCreateOrder_eq (a : OrderActor) (request : OrderRequest)
    (answerUuid orderUuid : String) (now : DateTime) :
    a.handleCreateOrder request answerUuid orderUuid now =
      a.createAndExecuteOrder request answerUuid orderUuid now := by
  have hcheck : a.performRiskCheck request = true := by
    unfold performRiskCheck
    cases a.riskManager <;> rfl
  rw [handleCreateOrder, if_pos hcheck]

theorem storeOrder_lookup (a : OrderActor) (o : Order) (id : String) :
    (a.storeOrder o).orders[id]? = if o.orderId = id then some o else a.orders[id]? := by
  simp [storeOrder, ExtTreeMap.getElem?_insert]

/-- `cancel_order` changes nothing, or marks one stored order as cancelled. -/
theorem cancelOrder_lookup {a : OrderActor} {id : String} {o : Order}
    (h : a.orders[id]? = some o) (orderId clientId : String) (now : DateTime) :
    ∃ o', (a.cancelOrder orderId clientId now).1.orders[id]? = some o' ∧
      (o' = o ∨ o' = o.updateStatus .cancelled now) := by
  unfold cancelOrder
  cases hid : a.orders[orderId]? with
  | none => exact ⟨o, h, Or.inl rfl⟩
  | some e =>
      dsimp only
      split_ifs
      · exact ⟨o, h, Or.inl rfl⟩
      · exact ⟨o, h, Or.inl rfl⟩
      · by_cases heq : orderId = id
        · subst id
          rw [hid, Option.some.injEq] at h
          exact ⟨o.updateStatus .cancelled now, by simp [h], Or.inr rfl⟩
        · exact ⟨o, by simpa [ExtTreeMap.getElem?_insert, heq] using h, Or.inl rfl⟩

theorem cancelOrder_accepted {a : OrderActor} {orderId clientId : String} {now : DateTime}
    {id : String} (h : (a.cancelOrder orderId clientId now).2 = .accepted id) :
    id = orderId ∧ ∃ o, a.orders[id]? = some o ∧ o.accountId = clientId ∧ o.canCancel = true := by
  unfold cancelOrder at h
  cases hid : a.orders[orderId]? with
  | none => simp [hid] at h
  | some o =>
      simp only [hid] at h
      split_ifs at h with hacc hcan
      rw [OrderResult.accepted.injEq] at h
      subst id
      exact ⟨rfl, o, hid, not_not.mp hacc, by simpa using hcan⟩

end OrderActor

end ActixPura
