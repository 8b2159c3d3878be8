import ActixPura.PlacementOrder

/-!
# When orders of one level trade in the order of their placement

Every match takes the resting order out of its queue, and an order with quantity left is pushed
to the back of the queue again. An order that is filled in part therefore loses its place to every
later order of its level, and the next call trades with those first. Time priority holds along
every run whose `match_order` calls meet `KeepsPlaces`; `continuous_match` needs no condition,
because such a run never shows it a crossed book.
-/

namespace ActixPura

open OrderBook OrderMatcher

/-- A book with the ids that were passed to `match_order` and those it placed, the latter in the
order of their placement. -/
structure PlacementRun where
  book : OrderBook
  used : List String
  placed : List String

namespace PlacementRun

def init (symbol : String) : PlacementRun := ⟨.new symbol, [], []⟩

/-- The run after a call for the order `id` left the book `b`. -/
def called (s : PlacementRun) (b : OrderBook) (id : String) : PlacementRun :=
  ⟨b, id :: s.used, if b.ordersById[id]?.isSome then s.placed ++ [id] else s.placed⟩

def step (s : PlacementRun) : FillOp → PlacementRun
  | .matchOrder env o => s.called (OrderMatcher.matchOrder env s.book o).book o.orderId
  | .continuousMatch env => ⟨(OrderMatcher.continuousMatch env s.book).1, s.used, s.placed⟩

def Fresh (s : PlacementRun) : FillOp → Prop
  | .matchOrder _ o => o.orderId ∉ s.used
  | .continuousMatch _ => True

/-- The condition on a call and the book before it. -/
def KeepsPlaces (s : PlacementRun) : FillOp → Prop
  | .matchOrder _ o =>
    o.isActive = false ∨ OrderMatcher.KeepsPlaces o.remainingQuantity (candidates s.book o)
  | .continuousMatch _ => True

instance (s : PlacementRun) : ∀ op, Decidable (s.Fresh op)
  | .matchOrder _ o => inferInstanceAs (Decidable (o.orderId ∉ s.used))
  | .continuousMatch _ => isTrue trivial

instance (s : PlacementRun) : ∀ op, Decidable (s.KeepsPlaces op)
  | .matchOrder _ _ => inferInstanceAs (Decidable (_ ∨ _))
  | .continuousMatch _ => isTrue trivial

def Respects (s : PlacementRun) : FillOp → Prop
  | .matchOrder env o =>
    TimePriority 1 s.placed s.book (OrderMatcher.matchOrder env s.book o).result
  | .continuousMatch env =>
    TimePriority 2 s.placed s.book (OrderMatcher.continuousMatch env s.book).2

structure Inv (s : PlacementRun) : Prop where
  coherent : s.book.Coherent
  uncrossed : Uncrossed s.book
  ordered : InPlacementOrder s.placed s.book
  placed : ∀ {id : String} {o : Order}, s.book.ordersById[id]? = some o → id ∈ s.placed
  used : ∀ id ∈ s.placed, id ∈ s.used

theorem inv_init (symbol : String) : (init symbol).Inv where
  coherent := coherent_new symbol
  uncrossed := uncrossed_new symbol
  ordered side k q hq := by simp [init] at hq
  placed ho := by simp [init, OrderBook.new] at ho
  used := by simp [init]

theorem Inv.fresh {s : PlacementRun} (h : s.Inv) {id : String} (hid : id ∉ s.used) :
    s.book.ordersById[id]? = none := by
  cases hidx : s.book.ordersById[id]? with
  | none => rfl
  | some o => exact absurd (h.used id (h.placed hidx)) hid

theorem Inv.absent {s : PlacementRun} (h : s.Inv) {id : String} (hid : id ∉ s.used)
    {b : OrderBook} (horigin : ∀ {id : String} {e : Order}, b.ordersById[id]? = some e →
      ∃ e₀, s.book.ordersById[id]? = some e₀ ∧ e.side = e₀.side ∧ e.price = e₀.price) :
    b.ordersById[id]? = none := by
  cases hidx : b.ordersById[id]? with
  | none => rfl
  | some e =>
      obtain ⟨e₀, he₀, _⟩ := horigin hidx
      rw [h.fresh hid] at he₀
      cases he₀

/-- A call whose order is not placed. -/
theorem Inv.called {s : PlacementRun} (h : s.Inv) {b : OrderBook} (hb : b.Coherent)
    (hord : InPlacementOrder s.placed b) {id : String} (hid : id ∉ s.used)
    (horigin : ∀ {id : String} {e : Order}, b.ordersById[id]? = some e →
      ∃ e₀, s.book.ordersById[id]? = some e₀ ∧ e.side = e₀.side ∧ e.price = e₀.price) :
    (s.called b id).Inv := by
  have hplaced : (s.called b id).placed = s.placed := by
    simp [PlacementRun.called, h.absent hid horigin]
  refine ⟨hb, h.uncrossed.of_origin h.coherent hb horigin, ?_, ?_, ?_⟩
  · rw [hplaced]
    exact hord
  · intro id' e he
    obtain ⟨e₀, he₀, _⟩ := horigin he
    rw [hplaced]
    exact h.placed he₀
  · intro id' hmem
    rw [hplaced] at hmem
    exact List.mem_cons_of_mem _ (h.used id' hmem)

/-- A call whose order comes to rest behind all others. -/
theorem Inv.called_addOrder {s : PlacementRun} (h : s.Inv) {b : OrderBook} (hb : b.Coherent)
    (hord : InPlacementOrder s.placed b) {o : Order} (hid : o.orderId ∉ s.used)
    (horigin : ∀ {id : String} {e : Order}, b.ordersById[id]? = some e →
      ∃ e₀, s.book.ordersById[id]? = some e₀ ∧ e.side = e₀.side ∧ e.price = e₀.price)
    (ha : b.accepts o = true) (hu : Uncrossed (b.addOrder o).1) :
    (s.called (b.addOrder o).1 o.orderId).Inv := by
  have hnot : o.orderId ∉ s.placed := fun hmem => hid (h.used _ hmem)
  have hindex : ∀ {id : String} {e : Order}, b.ordersById[id]? = some e → id ∈ s.placed := by
    intro id e he
    obtain ⟨e₀, he₀, _⟩ := horigin he
    exact h.placed he₀
  have hlevel : ∀ {side : OrderSide} {k : ℤ} {e : Order}, (b.levels side).Holds k e →
      e.orderId ∈ s.placed := fun he => hindex (hb.indexed he).1
  have hplaced : (s.called (b.addOrder o).1 o.orderId).placed = s.placed ++ [o.orderId] := by
    simp [PlacementRun.called, addOrder_lookup ha]
  refine ⟨hb.addOrder (h.absent hid horigin), hu, ?_, ?_, ?_⟩
  · rw [hplaced]
    apply (hord.placing o.orderId hlevel).addOrder
    intro _ e he
    unfold Earlier
    rw [List.idxOf_append_of_mem (hlevel he), List.idxOf_append_of_notMem hnot]
    simpa using List.idxOf_lt_length_of_mem (hlevel he)
  · intro id e he
    change (b.addOrder o).1.ordersById[id]? = some e at he
    rw [addOrder_lookup ha] at he
    rw [hplaced]
    split_ifs at he with hid'
    · exact List.mem_append_right _ (hid' ▸ List.mem_singleton_self _)
    · exact List.mem_append_left _ (hindex he)
  · intro id hmem
    rw [hplaced] at hmem
    rcases List.mem_append.mp hmem with hmem | hmem
    · exact List.mem_cons_of_mem _ (h.used id hmem)
    · rw [List.mem_singleton.mp hmem]
      exact List.mem_cons_self

theorem inv_matchOrder (env : Env) {s : PlacementRun} {o : Order} (h : s.Inv)
    (hid : o.orderId ∉ s.used)
    (hkeep : o.isActive = false ∨
      OrderMatcher.KeepsPlaces o.remainingQuantity (candidates s.book o)) :
    (s.step (.matchOrder env o)).Inv := by
  have hkeep' (hact : o.isActive = true) := hkeep.resolve_left (by simp [hact])
  have hturn (hact : o.isActive = true) := turn_matchByType env (s.book.ordersById.size + 1)
    h.coherent h.ordered (h.fresh hid) (hkeep' hact)
  rw [step, matchOrder]
  rcases matchOrderWith_book env (s.book.ordersById.size + 1) s.book o with
    ⟨_, hbook⟩ | ⟨hact, hbook⟩ | ⟨hact, hopen, hlim, ha, hbook⟩
  · rw [hbook]
    exact h.called h.coherent h.ordered hid (fun he => ⟨_, he, rfl, rfl⟩)
  · obtain ⟨_, ht⟩ := hturn hact
    rw [hbook]
    exact h.called ht.coherent ht.ordered hid ht.origin
  · obtain ⟨_, ht⟩ := hturn hact
    rw [hbook, ← ht.orderId]
    apply h.called_addOrder ht.coherent ht.ordered (ht.orderId.symm ▸ hid) ht.origin ha
    apply (h.uncrossed.of_origin h.coherent ht.coherent ht.origin).addOrder ht.side ht.orderPrice
    intro p hp k e he
    exact remainder_clear env _ h.coherent (hkeep' hact) (ht.orderType ▸ hlim) hopen hp he

theorem inv_step (s : PlacementRun) (op : FillOp) (h : s.Inv)
    (hok : s.Fresh op ∧ s.KeepsPlaces op) : (s.step op).Inv := by
  cases op with
  | matchOrder env o => exact inv_matchOrder env h hok.1 hok.2
  | continuousMatch env =>
      have hc := continuousMatchWith_uncrossed env (s.book.ordersById.size + 1) h.coherent
        h.uncrossed
      simpa only [step, continuousMatch, hc] using h

theorem respects_step {s : PlacementRun} (op : FillOp) (h : s.Inv)
    (hok : s.Fresh op ∧ s.KeepsPlaces op) : s.Respects op := by
  cases op with
  | matchOrder env o =>
      exact timePriority_matchOrderWith env _ h.coherent h.ordered (h.fresh hok.1) hok.2
  | continuousMatch env =>
      have hc := continuousMatchWith_uncrossed env (s.book.ordersById.size + 1) h.coherent
        h.uncrossed
      simp only [Respects, continuousMatch, hc]
      exact timePriority_new 2 s.placed s.book

/-- Along every run whose `match_order` calls leave no order with quantity in front of a later one
of its level, every call trades the orders of a level in the order of their placement, and after
every call the queues are in that order. -/
theorem run_time_priority (symbol : String) (ops : List FillOp)
    (h : Runs.Admissible step (fun s op => s.Fresh op ∧ s.KeepsPlaces op) (init symbol) ops) :
    ∀ before op after, ops = before ++ op :: after →
      (Runs.run step (init symbol) before).Respects op ∧
        InPlacementOrder (Runs.run step (init symbol) (before ++ [op])).placed
          (Runs.run step (init symbol) (before ++ [op])).book := by
  rintro before op after rfl
  obtain ⟨hbefore, hop, _⟩ := Runs.admissible_append.mp h
  have hinv := Runs.invariant_run inv_step (inv_init symbol) hbefore
  refine ⟨respects_step op hinv hop, ?_⟩
  rw [Runs.run_append]
  exact (inv_step _ op hinv hop).ordered

def limitCall (id : String) (side : OrderSide) (qty : ℕ) : FillOp :=
  .matchOrder ⟨fun n => n, fun n => toString n⟩
    (Order.fromRequest "" 0 ⟨some id, "AAPL", side, some 100, qty, "acc", .limit⟩)

/-- Two offers, of which the first is taken whole and the second, then alone, in part. -/
theorem run_time_priority_two_offers :
    let ops := [limitCall "s1" .sell 10, limitCall "s2" .sell 10, limitCall "b1" .buy 10,
      limitCall "b2" .buy 4]
    Runs.Admissible step (fun s op => s.Fresh op ∧ s.KeepsPlaces op) (init "AAPL") ops ∧
      ∀ before op after, ops = before ++ op :: after →
        (Runs.run step (init "AAPL") before).Respects op ∧
          InPlacementOrder (Runs.run step (init "AAPL") (before ++ [op])).placed
            (Runs.run step (init "AAPL") (before ++ [op])).book := by
  intro ops
  have hok : Runs.Admissible step (fun s op => s.Fresh op ∧ s.KeepsPlaces op) (init "AAPL")
      ops := by decide +kernel
  exact ⟨hok, run_time_priority "AAPL" ops hok⟩

/-- The offer `s1` is filled for 4 of 10 and goes behind `s2`, with which the next order trades
although `s1` has quantity left. -/
theorem not_run_time_priority : ¬ ∀ (symbol : String) (ops : List FillOp),
    Runs.Admissible step Fresh (init symbol) ops → ∀ before op after, ops = before ++ op :: after →
      (Runs.run step (init symbol) before).Respects op ∧
        InPlacementOrder (Runs.run step (init symbol) (before ++ [op])).placed
          (Runs.run step (init symbol) (before ++ [op])).book := by
  intro hall
  let before := [limitCall "s1" .sell 10, limitCall "s2" .sell 10, limitCall "b1" .buy 4]
  let env : Env := ⟨fun n => n, fun n => toString n⟩
  let order (id : String) (side : OrderSide) (qty : ℕ) : Order :=
    Order.fromRequest "" 0 ⟨some id, "AAPL", side, some 100, qty, "acc", .limit⟩
  let x := fillResting (order "s1" .sell 10) 4 0
  let y := order "s2" .sell 10
  have hcall := (hall "AAPL" (before ++ [limitCall "b2" .buy 5]) (by decide +kernel) before _ []
    rfl).1
  have hqueue : ((Runs.run step (init "AAPL") before).book.levels .sell)[(10000 : ℤ)]? =
      some [y, x] := by decide +kernel
  have hearlier : Earlier (Runs.run step (init "AAPL") before).placed x y :=
    show _ < _ by decide +kernel
  obtain ⟨u, hu, _⟩ := hcall [] (createExecutionRecord env 0 (order "b2" .buy 5) y 100 5) []
    (by decide +kernel) .sell 10000 x y ⟨_, hqueue, by simp⟩ ⟨_, hqueue, by simp⟩ hearlier
    (by decide +kernel)
  simp at hu

end PlacementRun

end ActixPura
