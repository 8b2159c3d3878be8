import Mathlib

/-!
# Orders and executions

The data model of `models/order.rs` and `models/execution.rs`. Quantities and prices are `f64`
in the source and are read as exact rationals here. `Utc::now` and `Uuid::new_v4` are the two
outside inputs of the matching code: an `Env` gives the clock reading and the identifier drawn
at each match of one call, and nothing is assumed about either.
-/

namespace ActixPura

abbrev DateTime := ℕ

structure Env where
  now : ℕ → DateTime
  newV4 : ℕ → String

def trunc (x : ℚ) : ℤ := x.num.tdiv x.den

/-- Rust's `as i64` on a finite float: truncation toward zero, saturating at the bounds. -/
def asI64 (x : ℚ) : ℤ := max (-2 ^ 63) (min (2 ^ 63 - 1) (trunc x))

theorem asI64_bounds (x : ℚ) : -2 ^ 63 ≤ asI64 x ∧ asI64 x ≤ 2 ^ 63 - 1 := by
  unfold asI64
  omega

theorem asI64_intCast {k : ℤ} (h : -2 ^ 63 ≤ k ∧ k ≤ 2 ^ 63 - 1) : asI64 (k : ℚ) = k := by
  have htrunc : trunc (k : ℚ) = k := by simp [trunc]
  rw [asI64, htrunc]
  omega

inductive OrderSide
  | buy
  | sell
  deriving DecidableEq, Repr

namespace OrderSide

def opposite : OrderSide → OrderSide
  | buy => sell
  | sell => buy

theorem opposite_ne (s : OrderSide) : s.opposite ≠ s := by
  cases s <;> decide

end OrderSide

inductive OrderType
  | market
  | limit
  | stopLoss
  | stopLimit
  | immediateOrCancel
  | fillOrKill
  deriving DecidableEq, Repr

inductive OrderStatus
  | new
  | accepted
  | partiallyFilled
  | filled
  | cancelled
  | rejected
  | expired
  deriving DecidableEq, Repr

structure Order where
  orderId : String
  accountId : String
  symbol : String
  side : OrderSide
  orderType : OrderType
  quantity : ℚ
  price : Option ℚ
  stopPrice : Option ℚ
  status : OrderStatus
  filledQuantity : ℚ
  createdAt : DateTime
  updatedAt : DateTime
  deriving DecidableEq, Repr

structure OrderRequest where
  orderId : Option String
  symbol : String
  side : OrderSide
  price : Option ℚ
  quantity : ℕ
  clientId : String
  orderType : OrderType
  deriving DecidableEq, Repr

namespace Order

/-- `uuid` is the identifier drawn when the request carries none. -/
def fromRequest (uuid : String) (now : DateTime) (req : OrderRequest) : Order where
  orderId := req.orderId.getD uuid
  accountId := req.clientId
  symbol := req.symbol
  side := req.side
  orderType := req.orderType
  quantity := req.quantity
  price := req.price
  stopPrice := none
  status := .new
  filledQuantity := 0
  createdAt := now
  updatedAt := now

def updateStatus (o : Order) (status : OrderStatus) (now : DateTime) : Order :=
  { o with status := status, updatedAt := now }

/-- The argument is *added* to the stored quantity, as in the source. -/
def updateFilledQuantity (o : Order) (filled : ℚ) (now : DateTime) : Order :=
  let total := o.filledQuantity + filled
  { o with
    filledQuantity := total
    status := if o.quantity ≤ total then .filled
      else if 0 < total then .partiallyFilled else o.status
    updatedAt := now }

def canCancel (o : Order) : Bool :=
  match o.status with
  | .new | .accepted | .partiallyFilled => true
  | _ => false

def isActive (o : Order) : Bool :=
  match o.status with
  | .new | .accepted | .partiallyFilled => true
  | _ => false

def remainingQuantity (o : Order) : ℚ := o.quantity - o.filledQuantity

/-- The integer price level of an order, `(price * 100.0) as i64`. -/
def priceKey (o : Order) : ℤ := asI64 (o.price.getD 0 * 100)

/-- The `has_price` test of `OrderBook::add_order`. -/
def hasPrice (o : Order) : Bool :=
  match o.price with
  | some price => decide (0 < price)
  | none => false

theorem hasPrice_iff {o : Order} : o.hasPrice = true ↔ ∃ p, o.price = some p ∧ 0 < p := by
  unfold hasPrice
  cases o.price <;> simp

section Updates

variable (o : Order) (status : OrderStatus) (filled : ℚ) (now : DateTime)

@[simp] theorem updateStatus_status : (o.updateStatus status now).status = status := rfl
@[simp] theorem updateStatus_orderId : (o.updateStatus status now).orderId = o.orderId := rfl
@[simp] theorem updateStatus_symbol : (o.updateStatus status now).symbol = o.symbol := rfl
@[simp] theorem updateStatus_side : (o.updateStatus status now).side = o.side := rfl
@[simp] theorem updateStatus_orderType :
    (o.updateStatus status now).orderType = o.orderType := rfl
@[simp] theorem updateStatus_quantity : (o.updateStatus status now).quantity = o.quantity := rfl
@[simp] theorem updateStatus_price : (o.updateStatus status now).price = o.price := rfl
@[simp] theorem updateStatus_filledQuantity :
    (o.updateStatus status now).filledQuantity = o.filledQuantity := rfl

@[simp] theorem updateFilledQuantity_orderId :
    (o.updateFilledQuantity filled now).orderId = o.orderId := rfl
@[simp] theorem updateFilledQuantity_symbol :
    (o.updateFilledQuantity filled now).symbol = o.symbol := rfl
@[simp] theorem updateFilledQuantity_side :
    (o.updateFilledQuantity filled now).side = o.side := rfl
@[simp] theorem updateFilledQuantity_orderType :
    (o.updateFilledQuantity filled now).orderType = o.orderType := rfl
@[simp] theorem updateFilledQuantity_quantity :
    (o.updateFilledQuantity filled now).quantity = o.quantity := rfl
@[simp] theorem updateFilledQuantity_price :
    (o.updateFilledQuantity filled now).price = o.price := rfl
@[simp] theorem updateFilledQuantity_filledQuantity :
    (o.updateFilledQuantity filled now).filledQuantity = o.filledQuantity + filled := rfl

end Updates

end Order

structure Execution where
  executionId : String
  orderId : String
  counterOrderId : Option String
  symbol : String
  price : ℚ
  quantity : ℚ
  side : OrderSide
  buyerAccountId : Option String
  sellerAccountId : Option String
  executedAt : DateTime
  deriving DecidableEq, Repr

/-- An execution names its buy order as `order_id` and its sell order as `counter_order_id`. -/
def Execution.names (e : Execution) (id : String) : Bool :=
  e.orderId == id || e.counterOrderId == some id

end ActixPura
