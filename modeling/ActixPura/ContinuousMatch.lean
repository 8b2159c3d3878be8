import ActixPura.MatchingTermination
import ActixPura.TradeRecords

/-!
# `continuous_match` uncrosses any book

A round matches the heads of the best levels as long as these cross, and every round takes an order
out of the book. When the loop is left the best levels do not cross. What a round does to the rest
of the book is stated as a frame: `AgreeOn p b b'` says that two books have the same orders under
the ids of `p`, in the same places.
-/

namespace ActixPura

namespace QueueMap

variable {κ α : Type*} [LinearOrder κ]

theorem filter_queue_pushBack (m : QueueMap κ α) (k k' : κ) {x : α} {p : α → Bool}
    (h : p x = false) :
    ((m.pushBack k x)[k']?.getD []).filter p = (m[k']?.getD []).filter p := by
  rw [getElem?_pushBack]
  split_ifs with hk
  · subst k'
    simp [List.filter_append, h]
  · rfl

theorem filter_queue_retain (m : QueueMap κ α) (k k' : κ) {p q : α → Bool}
    (h : ∀ x, p x = true → q x = true) :
    ((m.retain k q)[k']?.getD []).filter p = (m[k']?.getD []).filter p := by
  rw [getElem?_retain]
  split_ifs with hk
  · subst k'
    cases hm : m[k]? with
    | none => rfl
    | some l =>
        have hfilter : (l.filter q).filter p = l.filter p := by
          rw [List.filter_filter]
          refine List.filter_congr fun x _ => ?_
          cases hp : p x with
          | true => simp [h x hp]
          | false => rfl
        rw [Option.map_some, Option.getD_some, ← hfilter]
        cases hl : l.filter q with
        | nil => rfl
        | cons x l' => rfl
  · rfl

end QueueMap

namespace OrderBook

/-- The orders under the ids of `p` are the same in both books: in the index, and in the levels in
the same sequence. -/
structure AgreeOn (p : String → Bool) (b b' : OrderBook) : Prop where
  index : ∀ id, p id = true → b'.ordersById[id]? = b.ordersById[id]?
  queues : ∀ side (k : ℤ),
    ((b'.levels side)[k]?.getD []).filter (fun o => p o.orderId) =
      ((b.levels side)[k]?.getD []).filter (fun o => p o.orderId)

namespace AgreeOn

variable {p : String → Bool} {b b' : OrderBook}

theorem refl (p : String → Bool) (b : OrderBook) : AgreeOn p b b := ⟨fun _ _ => rfl, fun _ _ => rfl⟩

theorem trans {b'' : OrderBook} (h : AgreeOn p b b') (h' : AgreeOn p b' b'') : AgreeOn p b b'' where
  index id hid := (h'.index id hid).trans (h.index id hid)
  queues side k := (h'.queues side k).trans (h.queues side k)

theorem mono {p' : String → Bool} (h : AgreeOn p b b') (hp : ∀ id, p' id = true → p id = true) :
    AgreeOn p' b b' where
  index id hid := h.index id (hp id hid)
  queues side k := by
    have hfilter : ∀ l : List Order, l.filter (fun o => p' o.orderId) =
        (l.filter (fun o => p o.orderId)).filter (fun o => p' o.orderId) := by
      intro l
      rw [List.filter_filter]
      refine List.filter_congr fun o _ => ?_
      cases hid : p' o.orderId with
      | true => simp [hp o.orderId hid]
      | false => rfl
    rw [hfilter, h.queues, ← hfilter]

theorem removeOrder {id : String} (h : AgreeOn p b b') (hid : p id = false) :
    AgreeOn p b (b'.removeOrder id).1 := by
  refine h.trans ⟨fun id' hid' => ?_, fun side k => ?_⟩
  · rw [removeOrder_lookup, if_neg]
    rintro rfl
    rw [hid] at hid'
    cases hid'
  · cases hidx : b'.ordersById[id]? with
    | none => simp only [OrderBook.removeOrder, hidx]
    | some o =>
        rw [removeOrder_levels b' id hidx]
        split_ifs
        · apply QueueMap.filter_queue_retain
          intro e he
          rw [bne_iff_ne]
          rintro rfl
          rw [hid] at he
          cases he
        · rfl

theorem addOrder {o : Order} (h : AgreeOn p b b') (hid : p o.orderId = false) :
    AgreeOn p b (b'.addOrder o).1 := by
  cases ha : b'.accepts o with
  | false => rwa [addOrder_rejected ha]
  | true =>
      refine h.trans ⟨fun id' hid' => ?_, fun side k => ?_⟩
      · rw [addOrder_lookup ha, if_neg]
        rintro rfl
        rw [hid] at hid'
        cases hid'
      · rw [addOrder_levels ha]
        split_ifs
        · exact QueueMap.filter_queue_pushBack _ _ _ hid
        · rfl

theorem reinsert {o : Order} (h : AgreeOn p b b') (hid : p o.orderId = false) :
    AgreeOn p b (OrderMatcher.reinsert b' o) := by
  rcases OrderMatcher.reinsert_cases b' o with he | ⟨-, he⟩
  · rwa [he]
  · rw [he]
    exact h.addOrder hid

theorem matchPair {env : Env} {r : MatchResult} {sellPrice : ℚ} {buyOrder sellOrder : Order}
    (h : AgreeOn p b b') (hbuy : p buyOrder.orderId = false) (hsell : p sellOrder.orderId = false) :
    AgreeOn p b (OrderMatcher.matchPair env (b', r) sellPrice buyOrder sellOrder).1 := by
  have hremoved := (h.removeOrder hbuy).removeOrder hsell
  exact (hremoved.reinsert (by simpa using hbuy)).reinsert (by simpa using hsell)

end AgreeOn

end OrderBook

namespace OrderMatcher

open OrderBook

variable {env : Env} {b : OrderBook}

/-- The ids that no execution names. -/
def unnamed (es : List Execution) (id : String) : Bool := es.all fun e => !e.names id

/-- What a call of `continuous_match` leaves: the loop is left, the best levels do not cross, the
executions pair crossing orders, and the other orders are where they were. -/
structure Uncrosses (env : Env) (b : OrderBook) (out : OrderBook × MatchResult) : Prop where
  returned : continuousRound env out = none
  uncrossed : ∀ kb ks, out.1.buyOrders.lastKey = some kb → out.1.sellOrders.firstKey = some ks →
    kb < ks
  paired : ∀ e ∈ out.2.executions, ∃ buy sell, PairRecord env b buy sell e
  untouched : AgreeOn (unnamed out.2.executions) b out.1

theorem continuousRound_none {s : OrderBook × MatchResult} (hb : s.1.Coherent)
    (hs : continuousRound env s = none) {kb ks : ℤ} (hkb : s.1.buyOrders.lastKey = some kb)
    (hks : s.1.sellOrders.firstKey = some ks) : kb < ks := by
  have hbp : s.1.bestBuyPrice = some (kb / 100 : ℚ) := by rw [bestBuyPrice, hkb, Option.map_some]
  have hsp : s.1.bestSellPrice = some (ks / 100 : ℚ) := by rw [bestSellPrice, hks, Option.map_some]
  obtain ⟨kb', qb, hqb, -, hatb, -⟩ := bestOppositePrice_spec .sell hb hbp
  obtain ⟨ks', qs, hqs, -, hats, -⟩ := bestOppositePrice_spec .buy hb hsp
  obtain ⟨buyOrder, qb, rfl⟩ := List.exists_cons_of_ne_nil (hb.noEmpty _ _ _ hqb)
  obtain ⟨sellOrder, qs, rfl⟩ := List.exists_cons_of_ne_nil (hb.noEmpty _ _ _ hqs)
  change s.1.getBuyOrdersAtPrice _ = _ at hatb
  change s.1.getSellOrdersAtPrice _ = _ at hats
  by_contra hcross
  have hle : (ks / 100 : ℚ) ≤ kb / 100 := by
    have hcast : (ks : ℚ) ≤ kb := by exact_mod_cast not_lt.mp hcross
    linarith
  simp [continuousRound, hbp, hsp, hle, hatb, hats] at hs

theorem untouched_round {s s' : OrderBook × MatchResult} (hb : s.1.Coherent)
    (h : AgreeOn (unnamed s.2.executions) b s.1) (hs : continuousRound env s = some s') :
    AgreeOn (unnamed s'.2.executions) b s'.1 := by
  obtain ⟨b', r⟩ := s
  obtain ⟨kb, ks, buyOrder, sellOrder, qb, qs, -, -, -, -, -, rfl⟩ := continuousRound_some hb hs
  set qty := min buyOrder.remainingQuantity sellOrder.remainingQuantity
  have hall : ∀ id, unnamed (r.executions ++ [createExecutionRecord env r.executions.length buyOrder
      sellOrder (ks / 100) qty]) id = true →
        unnamed r.executions id = true ∧ buyOrder.orderId ≠ id ∧ sellOrder.orderId ≠ id := by
    intro id hid
    simpa [unnamed, Execution.names, createExecutionRecord] using hid
  refine AgreeOn.matchPair (h.mono fun id hid => (hall id hid).1) ?_ ?_
  · exact Bool.not_eq_true _ ▸ fun hid => (hall _ hid).2.1 rfl
  · exact Bool.not_eq_true _ ▸ fun hid => (hall _ hid).2.2 rfl

/-- `continuous_match` uncrosses every live book. -/
theorem continuous_match_uncrosses (env : Env) (b : OrderBook) (hb : Live b) :
    Uncrosses env b (continuousMatch env b) := by
  have hpairing := pairing_continuousMatchWith env (restingCount b + 1) hb
  have hleft : continuousRound env (continuousMatch env b) = none :=
    continuousRound_halts hb (Nat.lt_succ_self _)
  refine ⟨hleft, ?_, hpairing.recorded, ?_⟩
  · intro kb ks hkb hks
    exact continuousRound_none hpairing.live.coherent hleft hkb hks
  · have hinv : Pairing env b (continuousMatch env b) ∧
        AgreeOn (unnamed (continuousMatch env b).2.executions) b (continuousMatch env b).1 := by
      apply Runs.loop_invariant (I := fun s => Pairing env b s ∧
        AgreeOn (unnamed s.2.executions) b s.1) _ (restingCount b + 1) (s := (b, .new))
      · exact ⟨pairing_continuousMatchWith env 0 hb, AgreeOn.refl _ b⟩
      · rintro s s' ⟨hs, h⟩ hround
        exact ⟨pairing_round hb.coherent hs hround, untouched_round hs.live.coherent h hround⟩
    exact hinv.2

/-- A buy order at 101 against sell orders at 99 and 100. -/
def crossedBook : OrderBook :=
  let limit (id : String) (side : OrderSide) (price : ℚ) (quantity : ℕ) :=
    Order.fromRequest "" 0 ⟨some id, "AAPL", side, some price, quantity, "acc", .limit⟩
  ((((OrderBook.new "AAPL").addOrder (limit "b1" .buy 101 12)).1.addOrder
    (limit "s1" .sell 99 5)).1.addOrder (limit "s2" .sell 100 5)).1

theorem sound_crossedBook : Sound crossedBook := by
  apply Sound.addOrder
  · apply Sound.addOrder
    · exact (Sound.new "AAPL").addOrder (by decide +kernel) (by decide +kernel)
    · decide +kernel
    · decide +kernel
  · decide +kernel
  · decide +kernel

theorem continuous_match_uncrosses_crossedBook :
    let env : Env := ⟨fun n => n, fun n => toString n⟩
    (continuousMatch env crossedBook).2.executions.map Execution.price = [99, 100] ∧
      Uncrosses env crossedBook (continuousMatch env crossedBook) := by
  intro env
  exact ⟨by decide +kernel, continuous_match_uncrosses env crossedBook sound_crossedBook.live⟩

end OrderMatcher

end ActixPura
