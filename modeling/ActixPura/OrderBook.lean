import ActixPura.OrderModel
import ActixPura.QueueMap

/-!
# The order book

`execution/order_book.rs` stores every order twice: in the index `orders_by_id` and, when it has
a positive price, in the queue of its price level on its own side. Level keys are prices in
hundredths, truncated to `i64`. The `HashMap` index is modelled by an ordered map with the same
lookups; its iteration order is not used by the functions below.
-/

namespace ActixPura

open Std (ExtTreeMap)

structure OrderBook where
  symbol : String
  buyOrders : QueueMap ℤ Order
  sellOrders : QueueMap ℤ Order
  ordersById : ExtTreeMap String Order compare

namespace OrderBook

def new (symbol : String) : OrderBook := ⟨symbol, ∅, ∅, ∅⟩

/-- The level map that `match order.side` selects. -/
def levels (b : OrderBook) : OrderSide → QueueMap ℤ Order
  | .buy => b.buyOrders
  | .sell => b.sellOrders

def setLevels (b : OrderBook) (side : OrderSide) (m : QueueMap ℤ Order) : OrderBook :=
  match side with
  | .buy => { b with buyOrders := m }
  | .sell => { b with sellOrders := m }

def setIndex (b : OrderBook) (index : ExtTreeMap String Order compare) : OrderBook :=
  { b with ordersById := index }

/-- The two checks of `add_order`. -/
def accepts (b : OrderBook) (o : Order) : Bool := o.symbol == b.symbol && o.isActive

def addOrder (b : OrderBook) (o : Order) : OrderBook × Bool :=
  if b.accepts o then
    let b' := if o.hasPrice
      then b.setLevels o.side ((b.levels o.side).pushBack o.priceKey o) else b
    (b'.setIndex (b.ordersById.insert o.orderId o), true)
  else (b, false)

def removeOrder (b : OrderBook) (id : String) : OrderBook × Option Order :=
  match b.ordersById[id]? with
  | none => (b, none)
  | some o =>
    let b' := b.setLevels o.side
      ((b.levels o.side).retain o.priceKey (fun e => e.orderId != id))
    (b'.setIndex (b.ordersById.erase id), some o)

def bestBuyPrice (b : OrderBook) : Option ℚ :=
  b.buyOrders.lastKey.map (fun k : ℤ => (k : ℚ) / 100)

def bestSellPrice (b : OrderBook) : Option ℚ :=
  b.sellOrders.firstKey.map (fun k : ℤ => (k : ℚ) / 100)

def ordersAtPrice (m : QueueMap ℤ Order) (price : ℚ) : List Order :=
  m[asI64 (price * 100)]?.getD []

def getBuyOrdersAtPrice (b : OrderBook) (price : ℚ) : List Order :=
  ordersAtPrice b.buyOrders price

def getSellOrdersAtPrice (b : OrderBook) (price : ℚ) : List Order :=
  ordersAtPrice b.sellOrders price

/-- `buy_orders.range(target..)` walks the buy levels upwards. -/
def getMatchingBuyOrders (b : OrderBook) (price : ℚ) : List Order :=
  b.buyOrders.atLeast (asI64 (price * 100))

def getMatchingSellOrders (b : OrderBook) (price : ℚ) : List Order :=
  b.sellOrders.atMost (asI64 (price * 100))

section Levels

variable (b : OrderBook) (side side' : OrderSide) (m : QueueMap ℤ Order)

theorem levels_setLevels :
    (b.setLevels side m).levels side' = if side' = side then m else b.levels side' := by
  cases side <;> cases side' <;> rfl

@[simp] theorem setLevels_ordersById : (b.setLevels side m).ordersById = b.ordersById := by
  cases side <;> rfl

@[simp] theorem setLevels_symbol : (b.setLevels side m).symbol = b.symbol := by
  cases side <;> rfl

@[simp] theorem setIndex_levels (index : ExtTreeMap String Order compare) :
    (b.setIndex index).levels side = b.levels side := by
  cases side <;> rfl

@[simp] theorem setIndex_ordersById (index : ExtTreeMap String Order compare) :
    (b.setIndex index).ordersById = index := rfl

@[simp] theorem setIndex_symbol (index : ExtTreeMap String Order compare) :
    (b.setIndex index).symbol = b.symbol := rfl

@[simp] theorem new_levels (s : String) : (OrderBook.new s).levels side = ∅ := by
  cases side <;> rfl

end Levels

section Add

variable {b : OrderBook} {o : Order}

theorem accepts_iff : b.accepts o = true ↔ o.symbol = b.symbol ∧ o.isActive = true := by
  simp [accepts]

theorem addOrder_rejected (h : b.accepts o = false) : (b.addOrder o).1 = b := by
  simp [addOrder, h]

theorem addOrder_ordersById (h : b.accepts o = true) :
    (b.addOrder o).1.ordersById = b.ordersById.insert o.orderId o := by
  simp [addOrder, h]

theorem addOrder_lookup (h : b.accepts o = true) (id : String) :
    (b.addOrder o).1.ordersById[id]? = if o.orderId = id then some o else b.ordersById[id]? := by
  rw [addOrder_ordersById h, ExtTreeMap.getElem?_insert]
  simp

@[simp] theorem addOrder_symbol (b : OrderBook) (o : Order) :
    (b.addOrder o).1.symbol = b.symbol := by
  unfold addOrder
  split_ifs <;> simp

theorem addOrder_levels (h : b.accepts o = true) (side : OrderSide) :
    (b.addOrder o).1.levels side =
      if o.hasPrice = true ∧ side = o.side then (b.levels side).pushBack o.priceKey o
      else b.levels side := by
  by_cases hp : o.hasPrice = true
  · by_cases hs : side = o.side
    · subst side
      simp [addOrder, h, hp, levels_setLevels]
    · simp [addOrder, h, hp, hs, levels_setLevels]
  · simp [addOrder, h, hp]

/-- Which orders a level holds after `add_order`. -/
theorem holds_addOrder (h : b.accepts o = true) (side : OrderSide) (k : ℤ) (e : Order) :
    (((b.addOrder o).1.levels side).Holds k e) ↔ ((b.levels side).Holds k e) ∨
      (o.hasPrice = true ∧ side = o.side ∧ k = o.priceKey ∧ e = o) := by
  rw [addOrder_levels h]
  by_cases hc : o.hasPrice = true ∧ side = o.side
  · rw [if_pos hc, QueueMap.holds_pushBack]
    simp [hc.1, hc.2]
  · rw [if_neg hc]
    constructor
    · exact Or.inl
    · rintro (he | ⟨hp, hs, _⟩)
      · exact he
      · exact absurd ⟨hp, hs⟩ hc

/-- A queue after `add_order`: as it was, or with the new order at its end. -/
theorem addOrder_queue (h : b.accepts o = true) {side : OrderSide} {k : ℤ} {q : List Order}
    (hq : ((b.addOrder o).1.levels side)[k]? = some q) :
    (b.levels side)[k]? = some q ∨
      (o.hasPrice = true ∧ side = o.side ∧ k = o.priceKey ∧
        q = (b.levels side)[k]?.getD [] ++ [o]) := by
  rw [addOrder_levels h] at hq
  split_ifs at hq with hc
  · rw [QueueMap.getElem?_pushBack] at hq
    split_ifs at hq with hk
    · subst hk
      exact Or.inr ⟨hc.1, hc.2, rfl, (Option.some.inj hq).symm⟩
    · exact Or.inl hq
  · exact Or.inl hq

end Add

section Remove

variable (b : OrderBook) (id : String)

theorem removeOrder_ordersById : (b.removeOrder id).1.ordersById = b.ordersById.erase id := by
  unfold removeOrder
  cases hid : b.ordersById[id]? with
  | some o => simp
  | none =>
      apply ExtTreeMap.ext_getElem?
      intro k
      rw [ExtTreeMap.getElem?_erase]
      by_cases hk : id = k
      · subst k
        simpa using hid
      · simp [hk]

theorem removeOrder_lookup (id' : String) :
    (b.removeOrder id).1.ordersById[id']? = if id = id' then none else b.ordersById[id']? := by
  rw [removeOrder_ordersById, ExtTreeMap.getElem?_erase]
  simp

@[simp] theorem removeOrder_symbol : (b.removeOrder id).1.symbol = b.symbol := by
  unfold removeOrder
  cases b.ordersById[id]? <;> simp

theorem removeOrder_levels {o : Order} (hid : b.ordersById[id]? = some o) (side : OrderSide) :
    (b.removeOrder id).1.levels side =
      if side = o.side then (b.levels side).retain o.priceKey (fun e => e.orderId != id)
      else b.levels side := by
  unfold removeOrder
  simp only [hid, setIndex_levels, levels_setLevels]
  by_cases hs : side = o.side
  · subst side
    rfl
  · simp [hs]

/-- `remove_order` only takes orders out of the queues. -/
theorem removeOrder_queue {b : OrderBook} {id : String} {side : OrderSide} {k : ℤ} {q : List Order}
    (hq : ((b.removeOrder id).1.levels side)[k]? = some q) :
    ∃ q₀, (b.levels side)[k]? = some q₀ ∧ q.Sublist q₀ := by
  cases hid : b.ordersById[id]? with
  | none =>
      simp only [removeOrder, hid] at hq
      exact ⟨q, hq, List.Sublist.refl q⟩
  | some o =>
      rw [removeOrder_levels b id hid] at hq
      split_ifs at hq with hs
      · rw [QueueMap.getElem?_retain] at hq
        split_ifs at hq with hk
        · obtain ⟨hq, _⟩ := Option.filter_eq_some_iff.mp hq
          obtain ⟨q₀, hq₀, rfl⟩ := Option.map_eq_some_iff.mp hq
          exact ⟨q₀, hk ▸ hq₀, List.filter_sublist⟩
        · exact ⟨q, hq, List.Sublist.refl q⟩
      · exact ⟨q, hq, List.Sublist.refl q⟩

end Remove

end OrderBook

end ActixPura
