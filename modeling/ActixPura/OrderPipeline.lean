import ActixPura.OrderGateway
import ActixPura.AcceptedIds

/-!
# Orders through the gateway

A created order is converted three times: into the gateway's `Order`, into the adapter's
`OrderRequest`, and into the `Order` that is stored and sent to the engine. The request in the
middle has a whole number for the quantity and no stop price. The answer to the client is made of
the first order, so it shows what was asked and not what was stored.
-/

namespace ActixPura

open ApiGatewayActor ActixOrderActor

/-- Two orders with the same id, owner and terms. -/
structure SameOrder (o o' : Order) : Prop where
  orderId : o.orderId = o'.orderId
  accountId : o.accountId = o'.accountId
  symbol : o.symbol = o'.symbol
  side : o.side = o'.side
  orderType : o.orderType = o'.orderType
  quantity : o.quantity = o'.quantity
  price : o.price = o'.price
  stopPrice : o.stopPrice = o'.stopPrice

/-- The outside readings of one creation, in the gateway and in the order actor. -/
structure CreationReadings where
  newV4 : String
  createdAt : DateTime
  updatedAt : DateTime
  answerUuid : String
  orderUuid : String
  now : DateTime

namespace OrderPipeline

/-- The order actor answers the adapter. It leaves its new state and the order sent to the
engine. -/
def ask (a : OrderActor) (r : CreationReadings) (request : OrderRequest) :
    (OrderActor × Option Order) × Option OrderResult :=
  let (a', result, forwarded) := a.handleCreateOrder request r.answerUuid r.orderUuid r.now
  ((a', forwarded), some result)

/-- The adapter answers the gateway. -/
def send (a : OrderActor) (r : CreationReadings) (msg : CreateOrderMessage) :
    (OrderActor × Option Order) × Except MailboxError OrderCreateResult :=
  let (s, result) := ActixOrderActor.handleCreateOrder (ask a r) msg
  (s, .ok result)

/-- The order that the checks of the gateway let through. -/
def built (r : CreationReadings) (req : CreateOrderRequest) : Except String Order :=
  createdOrder r.newV4 r.createdAt r.updatedAt req

def createOrder (a : OrderActor) (r : CreationReadings) (req : CreateOrderRequest) :
    (OrderActor × Option Order) × HttpResponse Order :=
  ApiGatewayActor.handleCreateOrder (a, none) (send a r) r.newV4 r.createdAt r.updatedAt req

def cancelOrder (a : OrderActor) (now : DateTime) (orderId accountId : String) :
    OrderActor × HttpResponse Unit :=
  let send (msg : CancelOrderMessage) : OrderActor × Except MailboxError OrderCancelResult :=
    let (a', result) := ActixOrderActor.handleCancelOrder
      (fun request => (a.handleCancelOrder request now).map id some) msg
    (a', .ok result)
  ApiGatewayActor.handleCancelOrder send orderId accountId

/-- The order that arrives in the order actor for an order of the gateway. -/
def arrived (r : CreationReadings) (order : Order) : Order :=
  Order.fromRequest r.orderUuid r.now (orderRequest order)

/-- The order stored, the one sent to the engine and the one returned are the one the gateway
built. -/
def Survives (a : OrderActor) (r : CreationReadings) (req : CreateOrderRequest) : Prop :=
  ∀ order, built r req = .ok order →
    ∃ stored returned : Order,
      (createOrder a r req).1 = (a.storeOrder stored, a.executionEngine.map fun _ => stored) ∧
      (createOrder a r req).2 = .ok (some "Order created successfully") (some returned) ∧
      SameOrder stored order ∧ SameOrder returned order

variable {a : OrderActor} {r : CreationReadings} {req : CreateOrderRequest} {order : Order}

theorem createOrder_of_built (h : built r req = .ok order) : createOrder a r req =
    ((a.storeOrder (arrived r order), a.executionEngine.map fun _ => arrived r order),
      .ok (some "Order created successfully") (some order)) := by
  rw [built] at h
  rw [createOrder, ApiGatewayActor.handleCreateOrder, h]
  simp only [send, ActixOrderActor.handleCreateOrder, ask, OrderActor.handleCreateOrder_eq]
  rfl

/-- The returned id is the one under which the order is stored. -/
theorem created_usable (h : built r req = .ok order) :
    (createOrder a r req).1.1.Usable order.orderId order.accountId (arrived r order) := by
  rw [createOrder_of_built h]
  exact OrderActor.usable_stored a (orderRequest order) r.answerUuid r.orderUuid r.now

theorem cancelOrder_of_accepted {now : DateTime} {orderId accountId : String}
    (h : (a.cancelOrder orderId accountId now).2 = .accepted orderId) :
    (cancelOrder a now orderId accountId).2 = .ok (some "Order cancelled successfully") none := by
  simp [cancelOrder, ApiGatewayActor.handleCancelOrder, ActixOrderActor.handleCancelOrder,
    OrderActor.handleCancelOrder, h]

/-- An order that the gateway accepts can be cancelled under the id of the answer, as long as no
message stores or cancels an order under that id. -/
theorem created_cancels (h : built r req = .ok order) {messages : List OrderMessage}
    (hspares : ∀ message ∈ messages, OrderActor.Spares order.orderId message) (now : DateTime) :
    (createOrder a r req).2 = .ok (some "Order created successfully") (some order) ∧
      (cancelOrder (Runs.run OrderActor.handle (createOrder a r req).1.1 messages) now
        order.orderId order.accountId).2 = .ok (some "Order cancelled successfully") none := by
  have husable := OrderActor.usable_run hspares (created_usable (a := a) h)
  exact ⟨by rw [createOrder_of_built h], cancelOrder_of_accepted (husable.cancels now)⟩

theorem sameOrder_arrived_iff : SameOrder (arrived r order) order ↔
    order.stopPrice = none ∧ ∃ n : ℕ, n < 2 ^ 64 ∧ order.quantity = n := by
  rw [← asU64_eq_iff]
  constructor
  · intro h
    exact ⟨h.stopPrice.symm, h.quantity⟩
  · rintro ⟨hstop, hquantity⟩
    exact ⟨rfl, rfl, rfl, rfl, rfl, hquantity, rfl, hstop.symm⟩

theorem survives_of_built (h : built r req = .ok order) :
    Survives a r req ↔ SameOrder (arrived r order) order := by
  constructor
  · intro hsurvives
    obtain ⟨stored, returned, hstate, -, hstored, -⟩ := hsurvives order h
    rw [createOrder_of_built h, Prod.mk.injEq] at hstate
    have hlookup : (a.storeOrder stored).orders[order.orderId]? = some (arrived r order) := by
      rw [← hstate.1]
      exact (OrderActor.storeOrder_lookup a _ _).trans (if_pos rfl)
    rw [OrderActor.storeOrder_lookup, if_pos hstored.orderId, Option.some.injEq] at hlookup
    rw [← hlookup]
    exact hstored
  · intro hsame order' horder'
    rw [h, Except.ok.injEq] at horder'
    subst order'
    rw [createOrder_of_built h]
    exact ⟨arrived r order, order, rfl, rfl, hsame, ⟨rfl, rfl, rfl, rfl, rfl, rfl, rfl, rfl⟩⟩

theorem exists_built_of_admits (r : CreationReadings) {orderType : OrderType} {side : OrderSide}
    (h : Admits req orderType side) :
    ∃ order, built r req = .ok order ∧ order.stopPrice = req.stopPrice ∧
      order.quantity = req.quantity :=
  ⟨{ orderId := r.newV4, accountId := req.accountId, symbol := req.symbol, side := side
     orderType := orderType, quantity := req.quantity, price := req.price
     stopPrice := req.stopPrice, status := .new, filledQuantity := 0
     createdAt := r.createdAt, updatedAt := r.updatedAt },
    createdOrder_eq_ok_iff.mpr ⟨h, rfl⟩, rfl, rfl⟩

/-- An order that the gateway accepts survives exactly when it has no stop price and its quantity is
a whole number of 64 bits. -/
theorem order_survives_iff (a : OrderActor) (r : CreationReadings) {req : CreateOrderRequest}
    {orderType : OrderType} {side : OrderSide} (h : Admits req orderType side) :
    Survives a r req ↔ req.stopPrice = none ∧ ∃ n : ℕ, n < 2 ^ 64 ∧ req.quantity = n := by
  obtain ⟨order, hbuilt, hstop, hquantity⟩ := exists_built_of_admits r h
  rw [survives_of_built hbuilt, sameOrder_arrived_iff, hstop, hquantity]

/-- A market order for two units. -/
theorem order_survives_market :
    Admits ⟨"c", "BTC", "buy", "market", 2, none, none⟩ .market .buy ∧
      Survives (.new "n") ⟨"o", 0, 0, "u", "v", 0⟩
        ⟨"c", "BTC", "buy", "market", 2, none, none⟩ := by
  have h : Admits ⟨"c", "BTC", "buy", "market", 2, none, none⟩ .market .buy :=
    ⟨by decide +kernel, by decide +kernel, by norm_num, by simp, by simp⟩
  exact ⟨h, (order_survives_iff _ _ h).mpr ⟨rfl, 2, by norm_num, by norm_num⟩⟩

/-- A limit order for one and a half is stored for one. -/
theorem fraction_lost : ¬ ∀ (a : OrderActor) (r : CreationReadings) (req : CreateOrderRequest)
    (orderType : OrderType) (side : OrderSide), Admits req orderType side → Survives a r req := by
  intro h
  let req : CreateOrderRequest := ⟨"c", "BTC", "buy", "limit", 3 / 2, some 100, none⟩
  let r : CreationReadings := ⟨"o", 0, 0, "u", "v", 0⟩
  have hadmits : Admits req .limit .buy :=
    ⟨by decide +kernel, by decide +kernel, by norm_num [req], by simp [req], by simp⟩
  obtain ⟨order, hbuilt, -, hquantity⟩ := exists_built_of_admits r hadmits
  have hkept : (asU64 order.quantity : ℚ) = order.quantity :=
    ((survives_of_built hbuilt).mp (h (.new "n") r req .limit .buy hadmits)).quantity
  rw [hquantity] at hkept
  exact absurd hkept (by decide +kernel)

end OrderPipeline

end ActixPura
