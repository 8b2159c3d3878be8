import ActixPura.OrderModel

/-!
# The replicated state machine

`consensus/state_machine.rs`. The trading state machine numbers the orders and executions it
creates, and every command answers with success or an error text. Creating an order reads the
clock twice, so `apply` takes both readings.
-/

namespace ActixPura

open Std (ExtTreeMap)

structure Position where
  symbol : String
  quantity : ℚ
  avgPrice : ℚ
  frozen : ℚ

structure Account where
  id : String
  name : String
  balance : ℚ
  available : ℚ
  frozen : ℚ
  positions : ExtTreeMap String Position compare
  createdAt : DateTime
  updatedAt : DateTime

inductive AdminCommand
  | addNode (nodeId address : String)
  | removeNode (nodeId : String)
  | changeConfig (key value : String)

inductive StateMachineCommand
  | createOrder (request : OrderRequest)
  | updateOrderStatus (orderId : String) (newStatus : OrderStatus)
  | addExecution (execution : Execution)
  | updateAccount (account : Account)
  | adminCommand (command : AdminCommand)

structure TradingStateMachine where
  orders : ExtTreeMap String Order compare
  executions : ExtTreeMap String Execution compare
  accounts : ExtTreeMap String Account compare
  lastAppliedIndex : ℕ
  lastAppliedTerm : ℕ
  nextOrderId : ℕ
  nextExecutionId : ℕ

namespace TradingStateMachine

def new : TradingStateMachine := ⟨∅, ∅, ∅, 0, 0, 1, 1⟩

def updateApplied (m : TradingStateMachine) (index term : ℕ) : TradingStateMachine :=
  { m with lastAppliedIndex := index, lastAppliedTerm := term }

def apply (createdAt updatedAt : DateTime) (m : TradingStateMachine) :
    StateMachineCommand → TradingStateMachine × Except String Unit
  | .createOrder request =>
    let orderId := s!"order-{m.nextOrderId}"
    let order : Order :=
      { orderId := orderId
        accountId := request.clientId
        symbol := request.symbol
        side := request.side
        orderType := request.orderType
        quantity := request.quantity
        price := request.price
        stopPrice := none
        status := .new
        filledQuantity := 0
        createdAt := createdAt
        updatedAt := updatedAt }
    ({ m with nextOrderId := m.nextOrderId + 1, orders := m.orders.insert orderId order }, .ok ())
  | .updateOrderStatus orderId newStatus =>
    match m.orders[orderId]? with
    | some order =>
      ({ m with orders := m.orders.insert orderId { order with status := newStatus } }, .ok ())
    | none => (m, .error s!"订单不存在: {orderId}")
  | .addExecution execution =>
    let execId := s!"exec-{m.nextExecutionId}"
    ({ m with
        nextExecutionId := m.nextExecutionId + 1
        executions := m.executions.insert execId { execution with executionId := execId } },
      .ok ())
  | .updateAccount account =>
    ({ m with accounts := m.accounts.insert account.id account }, .ok ())
  | .adminCommand (.addNode _ _) => (m, .ok ())
  | .adminCommand (.removeNode _) => (m, .ok ())
  | .adminCommand (.changeConfig _ _) => (m, .ok ())

end TradingStateMachine

end ActixPura
