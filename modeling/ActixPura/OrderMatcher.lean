import ActixPura.OrderBook
import ActixPura.Runs

/-!
# The matching loops

`execution/matcher.rs`. The four matching functions share one loop body, `matchCandidate`: the
resting order leaves the book, both orders are filled, and the resting order returns when it has
quantity left. They differ in where the candidates come from. A market order takes the best
opposite level, round after round, until it is done (`marketRound`); a limit order walks one
snapshot of all eligible levels (`matchCandidates`).

`taker` is the side of the incoming order. The `while` loops run with a fuel argument, which
`matchOrder` and `continuousMatch` set to one more than the number of resting orders.
-/

namespace ActixPura

structure MatchResult where
  executions : List Execution
  updatedOrders : List Order
  deriving DecidableEq

namespace MatchResult

def new : MatchResult := ⟨[], []⟩

def addExecution (r : MatchResult) (e : Execution) : MatchResult :=
  { r with executions := r.executions ++ [e] }

def addUpdatedOrder (r : MatchResult) (o : Order) : MatchResult :=
  { r with updatedOrders := r.updatedOrders ++ [o] }

def hasMatches (r : MatchResult) : Bool := !r.executions.isEmpty

def merge (r other : MatchResult) : MatchResult :=
  ⟨r.executions ++ other.executions, r.updatedOrders ++ other.updatedOrders⟩

end MatchResult

namespace OrderMatcher

def createExecutionRecord (env : Env) (n : ℕ) (buyOrder sellOrder : Order)
    (price quantity : ℚ) : Execution where
  executionId := env.newV4 n
  orderId := buyOrder.orderId
  counterOrderId := some sellOrder.orderId
  symbol := buyOrder.symbol
  price := price
  quantity := quantity
  side := .buy
  buyerAccountId := some buyOrder.accountId
  sellerAccountId := some sellOrder.accountId
  executedAt := env.now n

/-- The incoming order is the buyer or the seller of the record, by its side. -/
def takerRecord (env : Env) (n : ℕ) (taker : OrderSide) (order resting : Order)
    (price quantity : ℚ) : Execution :=
  match taker with
  | .buy => createExecutionRecord env n order resting price quantity
  | .sell => createExecutionRecord env n resting order price quantity

/-- The update of a resting order after a match. The call passes the new total to
`update_filled_quantity`, which adds it to the old one. -/
def fillResting (o : Order) (matchQty : ℚ) (now : DateTime) : Order :=
  let updated := o.updateFilledQuantity (o.filledQuantity + matchQty) now
  if updated.remainingQuantity ≤ 0 then updated.updateStatus .filled now
  else updated.updateStatus .partiallyFilled now

/-- A resting order with quantity left goes back to the book. -/
def reinsert (b : OrderBook) (updated : Order) : OrderBook :=
  if updated.remainingQuantity ≤ 0 then b else (b.addOrder updated).1

structure MatchState where
  book : OrderBook
  order : Order
  remainingQty : ℚ
  result : MatchResult

def start (b : OrderBook) (o : Order) : MatchState := ⟨b, o, o.remainingQuantity, .new⟩

section Bodies

variable (env : Env) (taker : OrderSide)

def matchCandidate (matchPrice : ℚ) (s : MatchState) (resting : Order) : MatchState :=
  let n := s.result.executions.length
  let now := env.now n
  let matchQty := min s.remainingQty resting.remainingQuantity
  let remainingQty := s.remainingQty - matchQty
  let execution := takerRecord env n taker s.order resting matchPrice matchQty
  let updated := fillResting resting matchQty now
  { book := reinsert (s.book.removeOrder resting.orderId).1 updated
    order := (s.order.updateFilledQuantity (s.order.filledQuantity + matchQty) now).updateStatus
      (if remainingQty ≤ 0 then .filled else .partiallyFilled) now
    remainingQty := remainingQty
    result := (s.result.addExecution execution).addUpdatedOrder updated }

/-- The `for` loop of the market functions over one level. -/
def matchLevel (matchPrice : ℚ) : MatchState → List Order → MatchState
  | s, [] => s
  | s, resting :: rest =>
    let s' := matchCandidate env taker matchPrice s resting
    if s'.remainingQty ≤ 0 then s' else matchLevel matchPrice s' rest

/-- The `for` loop of the limit functions over the eligible orders. Orders in a level always
carry a price, so the source's `price.unwrap()` is read with a default. -/
def matchCandidates : MatchState → List Order → MatchState
  | s, [] => s
  | s, resting :: rest =>
    if s.remainingQty ≤ 0 ∨ s.order.isActive = false then s
    else matchCandidates (matchCandidate env taker (resting.price.getD 0) s resting) rest

end Bodies

/-- `best_sell_price` for a buyer, `best_buy_price` for a seller. -/
def bestOppositePrice (b : OrderBook) : OrderSide → Option ℚ
  | .buy => b.bestSellPrice
  | .sell => b.bestBuyPrice

def oppositeOrdersAtPrice (b : OrderBook) (taker : OrderSide) (price : ℚ) : List Order :=
  match taker with
  | .buy => b.getSellOrdersAtPrice price
  | .sell => b.getBuyOrdersAtPrice price

/-- One round of the `while` loop of a market order, `none` when the loop is left. -/
def marketRound (env : Env) (taker : OrderSide) (s : MatchState) : Option MatchState :=
  if 0 < s.remainingQty ∧ s.order.isActive = true then
    match bestOppositePrice s.book taker with
    | none => none
    | some price =>
      match oppositeOrdersAtPrice s.book taker price with
      | [] => none
      | resting :: rest => some (matchLevel env taker price s (resting :: rest))
  else none

def matchMarketBuyOrder (fuel : ℕ) (env : Env) (b : OrderBook) (o : Order) : MatchState :=
  Runs.loop (marketRound env .buy) fuel (start b o)

def matchMarketSellOrder (fuel : ℕ) (env : Env) (b : OrderBook) (o : Order) : MatchState :=
  Runs.loop (marketRound env .sell) fuel (start b o)

def matchLimitBuyOrder (env : Env) (b : OrderBook) (o : Order) (price : ℚ) : MatchState :=
  matchCandidates env .buy (start b o) (b.getMatchingSellOrders price)

def matchLimitSellOrder (env : Env) (b : OrderBook) (o : Order) (price : ℚ) : MatchState :=
  matchCandidates env .sell (start b o) (b.getMatchingBuyOrders price)

/-- The dispatch of `match_order` on the type and side of an active order. -/
def matchByType (fuel : ℕ) (env : Env) (b : OrderBook) (o : Order) : MatchState :=
  match o.orderType, o.side with
  | .market, .buy => matchMarketBuyOrder fuel env b o
  | .market, .sell => matchMarketSellOrder fuel env b o
  | .limit, .buy =>
    match o.price with
    | some price => matchLimitBuyOrder env b o price
    | none => start b o
  | .limit, .sell =>
    match o.price with
    | some price => matchLimitSellOrder env b o price
    | none => start b o
  | _, _ => start b o

/-- The book, the caller's order and the result when a call returns. -/
structure Outcome where
  book : OrderBook
  order : Order
  result : MatchResult

/-- The end of `match_order`: a limit order with quantity left rests, any other type is
cancelled and reported. -/
def placeRemainder (env : Env) (s : MatchState) : Outcome :=
  if s.order.isActive = true ∧ 0 < s.order.remainingQuantity then
    if s.order.orderType = .limit then ⟨(s.book.addOrder s.order).1, s.order, s.result⟩
    else
      let order := s.order.updateStatus .cancelled (env.now s.result.executions.length)
      ⟨s.book, order, s.result.addUpdatedOrder order⟩
  else ⟨s.book, s.order, s.result⟩

def matchOrderWith (fuel : ℕ) (env : Env) (b : OrderBook) (o : Order) : Outcome :=
  if o.isActive = true then placeRemainder env (matchByType fuel env b o) else ⟨b, o, .new⟩

def matchOrder (env : Env) (b : OrderBook) (o : Order) : Outcome :=
  matchOrderWith (b.ordersById.size + 1) env b o

/-- The match of one buy and one sell order at the sell price, both already at their best
level. -/
def matchPair (env : Env) (s : OrderBook × MatchResult) (sellPrice : ℚ)
    (buyOrder sellOrder : Order) : OrderBook × MatchResult :=
  let n := s.2.executions.length
  let now := env.now n
  let b := ((s.1.removeOrder buyOrder.orderId).1.removeOrder sellOrder.orderId).1
  let matchQty := min buyOrder.remainingQuantity sellOrder.remainingQuantity
  let execution := createExecutionRecord env n buyOrder sellOrder sellPrice matchQty
  let buyOrder := fillResting buyOrder matchQty now
  let sellOrder := fillResting sellOrder matchQty now
  (reinsert (reinsert b buyOrder) sellOrder,
    ((s.2.addExecution execution).addUpdatedOrder buyOrder).addUpdatedOrder sellOrder)

/-- One round of `continuous_match`, `none` when no match happened. -/
def continuousRound (env : Env) (s : OrderBook × MatchResult) :
    Option (OrderBook × MatchResult) :=
  match s.1.bestBuyPrice, s.1.bestSellPrice with
  | some buyPrice, some sellPrice =>
    if sellPrice ≤ buyPrice then
      match s.1.getBuyOrdersAtPrice buyPrice, s.1.getSellOrdersAtPrice sellPrice with
      | buyOrder :: _, sellOrder :: _ => some (matchPair env s sellPrice buyOrder sellOrder)
      | _, _ => none
    else none
  | _, _ => none

def continuousMatchWith (fuel : ℕ) (env : Env) (b : OrderBook) : OrderBook × MatchResult :=
  Runs.loop (continuousRound env) fuel (b, .new)

def continuousMatch (env : Env) (b : OrderBook) : OrderBook × MatchResult :=
  continuousMatchWith (b.ordersById.size + 1) env b

end OrderMatcher

end ActixPura
