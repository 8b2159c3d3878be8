import ActixPura.OrderActor

/-!
# The order gateway

`api/gateway.rs` and `api/adapter/order_actor.rs`. A request of a client becomes an `Order` in the
gateway, an `OrderRequest` in the adapter and an `Order` again in the order actor. The answer comes
back through the adapter, which turns an `OrderResult` or a list of orders into the result the
gateway waits for.

The two hops, `Addr::send` to the adapter and `ActorSystem::ask` to the order actor, are function
arguments here: what is behind them answers, and may fail to.
-/

namespace ActixPura

/-- `as u64` on a finite float: truncation toward zero, saturating at the bounds. -/
def asU64 (x : ℚ) : ℕ := min (2 ^ 64 - 1) (trunc x).toNat

theorem asU64_natCast {n : ℕ} (h : n < 2 ^ 64) : asU64 n = n := by
  have htrunc : trunc (n : ℚ) = n := by simp [trunc]
  rw [asU64, htrunc]
  omega

/-- The cast keeps the whole numbers of its range and no other value. -/
theorem asU64_eq_iff {x : ℚ} : (asU64 x : ℚ) = x ↔ ∃ n : ℕ, n < 2 ^ 64 ∧ x = n := by
  constructor
  · intro h
    refine ⟨asU64 x, ?_, h.symm⟩
    unfold asU64
    omega
  · rintro ⟨n, hn, rfl⟩
    rw [asU64_natCast hn]

/-- The upper case of a character where it is ASCII. The upper case of every other character has a
part outside ASCII in Unicode, and the character stands for itself here. -/
def upperChars (c : Char) : List Char :=
  match c.toNat with
  | 0x00DF => ['S', 'S']
  | 0x0131 => ['I']
  | 0x017F => ['S']
  | 0xFB00 => ['F', 'F']
  | 0xFB01 => ['F', 'I']
  | 0xFB02 => ['F', 'L']
  | 0xFB03 => ['F', 'F', 'I']
  | 0xFB04 => ['F', 'F', 'L']
  | 0xFB05 => ['S', 'T']
  | 0xFB06 => ['S', 'T']
  | _ => [c.toUpper]

/-- Rust's `to_uppercase`, exact for a comparison with an ASCII text. -/
def toUppercase (s : String) : String := String.ofList (s.toList.flatMap upperChars)

inductive MailboxError
  | closed
  | timeout
  deriving DecidableEq, Repr

def MailboxError.display : MailboxError → String
  | .closed => "Mailbox has closed"
  | .timeout => "Message delivery timed out"

structure ApiResponse (α : Type) where
  success : Bool
  message : Option String
  data : Option α
  deriving DecidableEq, Repr

inductive StatusCode
  | ok
  | badRequest
  | notFound
  | internalServerError
  deriving DecidableEq, Repr

structure HttpResponse (α : Type) where
  status : StatusCode
  body : ApiResponse α
  deriving DecidableEq, Repr

namespace HttpResponse

variable {α : Type}

def ok (message : Option String) (data : Option α) : HttpResponse α := ⟨.ok, true, message, data⟩

def failure (status : StatusCode) (message : String) : HttpResponse α :=
  ⟨status, false, some message, none⟩

/-- The answer to a message that was not handled. -/
def undelivered (e : MailboxError) : HttpResponse α :=
  failure .internalServerError s!"Internal error: {e.display}"

end HttpResponse

structure CreateOrderRequest where
  accountId : String
  symbol : String
  side : String
  orderType : String
  quantity : ℚ
  price : Option ℚ
  stopPrice : Option ℚ
  deriving DecidableEq, Repr

structure CreateOrderMessage where
  order : Order
  skipRiskCheck : Bool
  deriving DecidableEq, Repr

inductive OrderCreateResult
  | success (order : Order)
  | error (message : String)
  deriving DecidableEq, Repr

structure CancelOrderMessage where
  orderId : String
  requestedBy : String
  deriving DecidableEq, Repr

inductive OrderCancelResult
  | success
  | error (message : String)
  deriving DecidableEq, Repr

inductive OrderQueryMessage
  | getOrder (orderId : String)
  | getOrdersByAccount (accountId : String)
  | getOrdersBySymbol (symbol : String)
  | getOrdersByStatus (status : OrderStatus)
  | getAllOrders
  deriving DecidableEq, Repr

inductive OrderQueryResult
  | order (o : Order)
  | orders (os : List Order)
  | error (message : String)
  deriving DecidableEq, Repr

namespace ActixOrderActor

variable {σ : Type*}

/-- The request made of a gateway order. It has no field for the stop price. -/
def orderRequest (order : Order) : OrderRequest where
  orderId := some order.orderId
  symbol := order.symbol
  side := order.side
  price := order.price
  quantity := asU64 order.quantity
  clientId := order.accountId
  orderType := order.orderType

def handleCreateOrder (ask : OrderRequest → σ × Option OrderResult) (msg : CreateOrderMessage) :
    σ × OrderCreateResult :=
  let (s, result) := ask (orderRequest msg.order)
  match result with
  | some (.accepted orderId) => (s, .success { msg.order with orderId := orderId })
  | some (.rejected reason) => (s, .error reason)
  | some (.error error) => (s, .error error)
  | none => (s, .error "No response from order actor")

def handleCancelOrder (ask : CancelOrderRequest → σ × Option OrderResult)
    (msg : CancelOrderMessage) : σ × OrderCancelResult :=
  let (s, result) := ask ⟨msg.orderId, msg.requestedBy⟩
  match result with
  | some (.accepted _) => (s, .success)
  | some (.rejected reason) => (s, .error reason)
  | some (.error error) => (s, .error error)
  | none => (s, .error "No response from order actor")

def query : OrderQueryMessage → OrderQuery
  | .getOrder orderId => .byId orderId
  | .getOrdersByAccount accountId => .byAccount accountId
  | .getOrdersBySymbol symbol => .bySymbol symbol
  | .getOrdersByStatus status => .byStatus status
  | .getAllOrders => .all

/-- The number of results decides between `Order` and `Orders`, not the message. -/
def handleOrderQuery (ask : OrderQuery → Option (List Order)) (msg : OrderQueryMessage) :
    OrderQueryResult :=
  match ask (query msg) with
  | some [o] => .order o
  | some os => .orders os
  | none => .error "No response from order actor"

end ActixOrderActor

namespace ApiGatewayActor

variable {σ : Type*}

def parseOrderType (text : String) : Option OrderType :=
  match toUppercase text with
  | "MARKET" => some .market
  | "LIMIT" => some .limit
  | "STOP" => some .stopLoss
  | "STOP_LIMIT" => some .stopLimit
  | _ => none

def parseSide (text : String) : Option OrderSide :=
  match toUppercase text with
  | "BUY" => some .buy
  | "SELL" => some .sell
  | _ => none

/-- The checks of `handle_create_order`, and the order it sends when they pass. -/
def createdOrder (newV4 : String) (createdAt updatedAt : DateTime) (req : CreateOrderRequest) :
    Except String Order :=
  match parseOrderType req.orderType with
  | none => .error s!"Invalid order type: {req.orderType}"
  | some orderType =>
    match parseSide req.side with
    | none => .error s!"Invalid order side: {req.side}"
    | some side =>
      if req.quantity ≤ 0 then .error "Quantity must be greater than zero"
      else if orderType = .limit ∧ req.price = none then .error "Limit order requires a price"
      else if (orderType = .stopLoss ∨ orderType = .stopLimit) ∧ req.stopPrice = none then
        .error "Stop order requires a stop price"
      else .ok
        { orderId := newV4
          accountId := req.accountId
          symbol := req.symbol
          side := side
          orderType := orderType
          quantity := req.quantity
          price := req.price
          stopPrice := req.stopPrice
          status := .new
          filledQuantity := 0
          createdAt := createdAt
          updatedAt := updatedAt }

/-- `s` is the state behind `send`, which a rejected request does not reach. -/
def handleCreateOrder (s : σ)
    (send : CreateOrderMessage → σ × Except MailboxError OrderCreateResult) (newV4 : String)
    (createdAt updatedAt : DateTime) (req : CreateOrderRequest) : σ × HttpResponse Order :=
  match createdOrder newV4 createdAt updatedAt req with
  | .error message => (s, .failure .badRequest message)
  | .ok order =>
    let (s', sent) := send ⟨order, false⟩
    match sent with
    | .ok (.success order) => (s', .ok (some "Order created successfully") (some order))
    | .ok (.error err) => (s', .failure .badRequest err)
    | .error e => (s', .undelivered e)

def handleCancelOrder (send : CancelOrderMessage → σ × Except MailboxError OrderCancelResult)
    (orderId accountId : String) : σ × HttpResponse Unit :=
  let (s, sent) := send ⟨orderId, accountId⟩
  match sent with
  | .ok .success => (s, .ok (some "Order cancelled successfully") none)
  | .ok (.error err) => (s, .failure .badRequest err)
  | .error e => (s, .undelivered e)

def handleOrderQuery (send : OrderQueryMessage → Except MailboxError OrderQueryResult)
    (orderId : String) : HttpResponse Order :=
  match send (.getOrder orderId) with
  | .ok (.order o) => .ok none (some o)
  | .ok (.error err) => .failure .notFound err
  | .ok (.orders _) => .failure .internalServerError "Unexpected response type"
  | .error e => .undelivered e

def handleAccountOrdersQuery (send : OrderQueryMessage → Except MailboxError OrderQueryResult)
    (accountId : String) : HttpResponse (List Order) :=
  match send (.getOrdersByAccount accountId) with
  | .ok (.orders os) => .ok none (some os)
  | .ok (.error err) => .failure .notFound err
  | .ok (.order _) => .failure .internalServerError "Unexpected response type"
  | .error e => .undelivered e

section Checks

variable {newV4 : String} {createdAt updatedAt : DateTime} {req : CreateOrderRequest}
  {order : Order}

/-- What the gateway checks of a request, for the order type and the side read from its texts. -/
structure Admits (req : CreateOrderRequest) (orderType : OrderType) (side : OrderSide) :
    Prop where
  typed : parseOrderType req.orderType = some orderType
  sided : parseSide req.side = some side
  quantity : 0 < req.quantity
  price : orderType = .limit → req.price ≠ none
  stopPrice : orderType = .stopLoss ∨ orderType = .stopLimit → req.stopPrice ≠ none

/-- The order built from an admitted request repeats it. -/
theorem createdOrder_eq_ok_iff : createdOrder newV4 createdAt updatedAt req = .ok order ↔
    Admits req order.orderType order.side ∧
      order = { orderId := newV4, accountId := req.accountId, symbol := req.symbol
                side := order.side, orderType := order.orderType, quantity := req.quantity
                price := req.price, stopPrice := req.stopPrice, status := .new
                filledQuantity := 0, createdAt := createdAt, updatedAt := updatedAt } := by
  constructor
  · intro h
    unfold createdOrder at h
    cases htype : parseOrderType req.orderType with
    | none => simp [htype] at h
    | some orderType =>
        cases hside : parseSide req.side with
        | none => simp [htype, hside] at h
        | some side =>
            simp only [htype, hside] at h
            split_ifs at h with hquantity hprice hstop
            rw [Except.ok.injEq] at h
            subst order
            exact ⟨⟨htype, hside, not_le.mp hquantity, fun hlimit hnone => hprice ⟨hlimit, hnone⟩,
              fun htype' hnone => hstop ⟨htype', hnone⟩⟩, rfl⟩
  · rintro ⟨h, horder⟩
    rw [createdOrder, h.typed, h.sided]
    dsimp only
    rw [if_neg (not_le.mpr h.quantity), if_neg fun hc => h.price hc.1 hc.2,
      if_neg fun hc => h.stopPrice hc.1 hc.2, ← horder]

end Checks

end ApiGatewayActor

end ActixPura
