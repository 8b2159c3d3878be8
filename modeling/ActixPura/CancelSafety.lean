import ActixPura.ExecutionEngine
import ActixPura.FilledStatus
import ActixPura.OrderActor

/-!
# When a cancelled order stays untouched

The order actor and the engine run side by side. A created order is stored and its
`ExecuteOrderMessage` is in flight until the engine handles it, once; creations, cancellations
and deliveries interleave in any order. `cancel_order` never reaches the engine, so an accepted
cancellation protects an order only when the engine is already done with it: its message was
handled, no price level holds it, and the engine did not close it as filled.
-/

namespace ActixPura

open OrderBook OrderMatcher

structure TradingSystem where
  orderActor : OrderActor
  /-- The orders of the messages the engine has not handled yet. -/
  inFlight : List Order
  engine : ExecutionEngine
  /-- All executions so far, in the order in which they were produced. -/
  executions : List Execution
  /-- All copies of orders the engine handed out so far. -/
  shown : List Order

inductive SystemOp
  | create (request : OrderRequest) (answerUuid orderUuid : String) (now : DateTime)
  | cancel (request : CancelOrderRequest) (now : DateTime)
  | execute (n : ℕ) (matchEnv continuousEnv : Env)

namespace TradingSystem

/-- A fresh system, where the order actor may or may not know an engine and a risk manager. -/
def init (actorId engineId : String) (engine riskManager : Option ActorRef) : TradingSystem :=
  ⟨{ OrderActor.new actorId with executionEngine := engine, riskManager := riskManager }, [],
    .new engineId, [], []⟩

def step (s : TradingSystem) : SystemOp → TradingSystem
  | .create request answerUuid orderUuid now =>
    let r := s.orderActor.handleCreateOrder request answerUuid orderUuid now
    { s with orderActor := r.1, inFlight := s.inFlight ++ r.2.2.toList }
  | .cancel request now =>
    { s with orderActor := (s.orderActor.cancelOrder request.orderId request.clientId now).1 }
  | .execute n matchEnv continuousEnv =>
    match s.inFlight[n]? with
    | none => s
    | some o =>
      let done := s.engine.executeOrder matchEnv continuousEnv o
      { s with
        inFlight := s.inFlight.eraseIdx n
        engine := done.engine
        executions := s.executions ++ done.result.executions
        shown := s.shown ++ done.result.updatedOrders ++ [done.order] }

/-- Requests carry, or are given, ids that were not used before. -/
def Ok (s : TradingSystem) : SystemOp → Prop
  | .create request _ orderUuid now =>
    s.orderActor.orders[(Order.fromRequest orderUuid now request).orderId]? = none
  | .cancel _ _ => True
  | .execute _ _ _ => True

instance (s : TradingSystem) : ∀ op, Decidable (s.Ok op)
  | .create _ _ _ _ => inferInstanceAs (Decidable (_ = _))
  | .cancel _ _ => isTrue trivial
  | .execute _ _ _ => isTrue trivial

/-- The engine is done with an order: its message was handled, its symbol's book holds it in no
price level, and the last copy the engine handed out is not filled. -/
structure Settled (s : TradingSystem) (id : String) : Prop where
  handled : ∀ o ∈ s.inFlight, o.orderId ≠ id
  unlisted : ∀ {o : Order}, s.orderActor.orders[id]? = some o →
    ∀ e ∈ (s.engine.orderBook o.symbol).entries, e.orderId ≠ id
  unfilled : ∀ c, latestCopy s.shown id = some c → c.status ≠ .filled

/-- The condition on a cancellation: if it is accepted, the engine is done with the order. -/
def CancelsSettled (s : TradingSystem) : SystemOp → Prop
  | .cancel request now =>
    (s.orderActor.cancelOrder request.orderId request.clientId now).2 = .accepted request.orderId →
      s.Settled request.orderId
  | .create _ _ _ _ => True
  | .execute _ _ _ => True

def quantityOf (s : TradingSystem) (id : String) : ℚ :=
  (s.orderActor.orders[id]?.map Order.quantity).getD 0

structure Inv (s : TradingSystem) : Prop where
  live : ∀ symbol, Live (s.engine.orderBook symbol)
  uncrossed : ∀ symbol, Uncrossed (s.engine.orderBook symbol)
  indexed : ∀ {symbol id : String} {e : Order},
    (s.engine.orderBook symbol).ordersById[id]? = some e →
    ∃ o, s.orderActor.orders[id]? = some o ∧ o.symbol = symbol
  stored : ∀ c ∈ s.shown, ∃ o, s.orderActor.orders[c.orderId]? = some o
  pending : ∀ o ∈ s.inFlight, o.filledQuantity = 0 ∧ latestCopy s.shown o.orderId = none ∧
    (∃ o', s.orderActor.orders[o.orderId]? = some o' ∧ o'.symbol = o.symbol ∧
      o'.quantity = o.quantity) ∧
    ∀ symbol, (s.engine.orderBook symbol).ordersById[o.orderId]? = none
  nodup : (s.inFlight.map Order.orderId).Nodup
  tally : ∀ symbol, Tally s.quantityOf s.executions s.shown (s.engine.orderBook symbol)

theorem latestCopy_mem {rs : List Order} {id : String} {c : Order}
    (h : latestCopy rs id = some c) : c ∈ rs ∧ c.orderId = id := by
  have hid := List.find?_some h
  exact ⟨List.mem_reverse.mp (List.mem_of_find?_eq_some h), by simpa using hid⟩

theorem latestCopy_eq_none {rs : List Order} {id : String} :
    latestCopy rs id = none ↔ ∀ c ∈ rs, c.orderId ≠ id := by
  simp [latestCopy]

theorem inv_init (actorId engineId : String) (engine riskManager : Option ActorRef) :
    (init actorId engineId engine riskManager).Inv := by
  have hbook : ∀ symbol, (init actorId engineId engine riskManager).engine.orderBook symbol =
      .new symbol := by
    intro symbol
    simp [init, ExecutionEngine.orderBook, ExecutionEngine.new]
  refine ⟨?_, ?_, ?_, by simp [init], by simp [init], by simp [init], ?_⟩
  · intro symbol
    rw [hbook]
    exact Live.new symbol
  · intro symbol
    rw [hbook]
    exact uncrossed_new symbol
  · intro symbol id e he
    simp [hbook, OrderBook.new] at he
  · intro symbol
    rw [hbook]
    refine ⟨?_, by simp [init, latestCopy], by simp [init, executedQuantity]⟩
    intro id e he
    simp [OrderBook.new] at he

/-- The copies of an order that stay stored keep the tally. -/
theorem tally_congr {Q Q' : String → ℚ} {es : List Execution} {rs : List Order} {b : OrderBook}
    (h : Tally Q es rs b)
    (hindex : ∀ {id : String} {e : Order}, b.ordersById[id]? = some e → Q' id = Q id)
    (hshown : ∀ {id : String} {c : Order}, latestCopy rs id = some c → Q' id = Q id) :
    Tally Q' es rs b := by
  refine ⟨?_, ?_, h.unseen⟩
  · intro id e he
    rw [hindex he]
    exact h.index he
  · intro id c hc
    rw [hshown hc]
    exact h.shown hc

section Steps

variable {s : TradingSystem}

/-- A change of the actor that keeps every stored order with its symbol and quantity. -/
theorem inv_of_kept (h : s.Inv) (a : OrderActor)
    (hkept : ∀ {id : String} {o : Order}, s.orderActor.orders[id]? = some o →
      ∃ o', a.orders[id]? = some o' ∧ o'.symbol = o.symbol ∧ o'.quantity = o.quantity) :
    Inv { s with orderActor := a } := by
  have hquantity : ∀ {id : String} {o : Order}, s.orderActor.orders[id]? = some o →
      quantityOf { s with orderActor := a } id = s.quantityOf id := by
    intro id o ho
    obtain ⟨o', ho', _, hq⟩ := hkept ho
    simp [quantityOf, ho, ho', hq]
  refine ⟨h.live, h.uncrossed, ?_, ?_, ?_, h.nodup, ?_⟩
  · intro symbol id e he
    obtain ⟨o, ho, rfl⟩ := h.indexed he
    obtain ⟨o', ho', hsym, _⟩ := hkept ho
    exact ⟨o', ho', hsym⟩
  · intro c hc
    obtain ⟨o, ho⟩ := h.stored c hc
    obtain ⟨o', ho', _⟩ := hkept ho
    exact ⟨o', ho'⟩
  · intro o ho
    obtain ⟨hfill, hcopy, ⟨o₀, ho₀, hsym₀, hq₀⟩, hindex⟩ := h.pending o ho
    obtain ⟨o', ho', hsym, hq⟩ := hkept ho₀
    exact ⟨hfill, hcopy, ⟨o', ho', hsym.trans hsym₀, hq.trans hq₀⟩, hindex⟩
  · intro symbol
    apply tally_congr (h.tally symbol)
    · intro id e he
      obtain ⟨o, ho, _⟩ := h.indexed he
      exact hquantity ho
    · intro id c hc
      obtain ⟨hmem, rfl⟩ := latestCopy_mem hc
      obtain ⟨o, ho⟩ := h.stored c hmem
      exact hquantity ho

theorem inv_cancel (h : s.Inv) (request : CancelOrderRequest) (now : DateTime) :
    (s.step (.cancel request now)).Inv := by
  apply inv_of_kept h
  intro id o ho
  obtain ⟨o', ho', rfl | rfl⟩ :=
    OrderActor.cancelOrder_lookup ho request.orderId request.clientId now
  · exact ⟨o', ho', rfl, rfl⟩
  · exact ⟨_, ho', rfl, rfl⟩

theorem inv_create (h : s.Inv) (request : OrderRequest) (answerUuid orderUuid : String)
    (now : DateTime) (hok : s.Ok (.create request answerUuid orderUuid now)) :
    (s.step (.create request answerUuid orderUuid now)).Inv := by
  set o := Order.fromRequest orderUuid now request with ho
  have hnone : s.orderActor.orders[o.orderId]? = none := hok
  have hne : ∀ {id : String} {x : Order}, s.orderActor.orders[id]? = some x → o.orderId ≠ id := by
    rintro id x hx rfl
    rw [hnone] at hx
    cases hx
  have hstore : Inv { s with orderActor := s.orderActor.storeOrder o } := by
    apply inv_of_kept h
    intro id x hx
    rw [OrderActor.storeOrder_lookup, if_neg (hne hx)]
    exact ⟨x, hx, rfl, rfl⟩
  have hstep : s.step (.create request answerUuid orderUuid now) =
      { s with
        orderActor := s.orderActor.storeOrder o
        inFlight := s.inFlight ++ (s.orderActor.executionEngine.map (fun _ => o)).toList } := by
    simp only [step, OrderActor.handleCreateOrder_eq, OrderActor.createAndExecuteOrder, ho]
  rw [hstep]
  cases s.orderActor.executionEngine with
  | none => simpa using hstore
  | some engine =>
      refine ⟨hstore.live, hstore.uncrossed, hstore.indexed, hstore.stored, ?_, ?_, hstore.tally⟩
      · intro x hx
        rcases List.mem_append.mp hx with hx | hx
        · exact hstore.pending x hx
        · obtain rfl : x = o := by simpa using hx
          refine ⟨rfl, ?_, ⟨o, ?_, rfl, rfl⟩, ?_⟩
          · rw [latestCopy_eq_none]
            intro c hc
            obtain ⟨y, hy⟩ := h.stored c hc
            exact Ne.symm (hne hy)
          · rw [OrderActor.storeOrder_lookup, if_pos rfl]
          · intro symbol
            cases hindex : (s.engine.orderBook symbol).ordersById[o.orderId]? with
            | none => rfl
            | some e =>
                obtain ⟨y, hy, _⟩ := h.indexed hindex
                exact absurd rfl (hne hy)
      · simp only [Option.map_some, Option.toList_some, List.map_append, List.map_singleton]
        rw [List.nodup_append]
        refine ⟨h.nodup, List.nodup_singleton _, ?_⟩
        intro i hi j hj
        obtain ⟨x, hx, rfl⟩ := List.mem_map.mp hi
        obtain ⟨_, _, ⟨y, hy, _⟩, _⟩ := h.pending x hx
        rw [List.mem_singleton.mp hj]
        exact Ne.symm (hne hy)

/-- A handled message leaves the queue for good. -/
theorem eraseIdx_ids {l : List Order} {n : ℕ} {o : Order} (hn : l[n]? = some o)
    (hnd : (l.map Order.orderId).Nodup) :
    ((l.eraseIdx n).map Order.orderId).Nodup ∧ ∀ x ∈ l.eraseIdx n, x.orderId ≠ o.orderId := by
  obtain ⟨hlt, rfl⟩ := List.getElem?_eq_some_iff.mp hn
  have hsplit : l = l.take n ++ l[n] :: l.drop (n + 1) := by
    rw [List.getElem_cons_drop, List.take_append_drop]
  rw [hsplit, List.map_append, List.map_cons, List.nodup_middle, List.nodup_cons,
    ← List.map_append] at hnd
  rw [List.eraseIdx_eq_take_drop_succ]
  refine ⟨hnd.2, ?_⟩
  intro x hx heq
  exact hnd.1 (heq ▸ List.mem_map_of_mem hx)

/-- What a handled message does to the system. -/
theorem step_execute (h : s.Inv) {n : ℕ} {o : Order} (hn : s.inFlight[n]? = some o)
    (matchEnv continuousEnv : Env) :
    let out := matchOrder matchEnv (s.engine.orderBook o.symbol) o
    let s' := s.step (.execute n matchEnv continuousEnv)
    s'.orderActor = s.orderActor ∧ s'.inFlight = s.inFlight.eraseIdx n ∧
      s'.executions = s.executions ++ out.result.executions ∧
      s'.shown = s.shown ++ out.result.updatedOrders ++ [out.order] ∧
      ∀ symbol, s'.engine.orderBook symbol =
        if o.symbol = symbol then out.book else s.engine.orderBook symbol := by
  intro out s'
  obtain ⟨hfill, _, _, hindex⟩ := h.pending o (List.mem_of_getElem? hn)
  obtain ⟨horder, hresult, hbook⟩ := ExecutionEngine.executeOrder_spec matchEnv continuousEnv
    s.engine o (h.live _) (h.uncrossed _) (hindex _) hfill.ge
  have hs' : s' = { s with
      inFlight := s.inFlight.eraseIdx n
      engine := (s.engine.executeOrder matchEnv continuousEnv o).engine
      executions := s.executions ++ out.result.executions
      shown := s.shown ++ out.result.updatedOrders ++ [out.order] } := by
    simp only [s', step, hn, horder, hresult, out]
  rw [hs']
  exact ⟨rfl, rfl, rfl, rfl, hbook⟩

/-- The ids an execution of the call can name. -/
theorem named_execute (h : s.Inv) {n : ℕ} {o : Order} (hn : s.inFlight[n]? = some o)
    (matchEnv : Env) {x : Execution} {id : String}
    (hx : x ∈ (matchOrder matchEnv (s.engine.orderBook o.symbol) o).result.executions)
    (hname : x.names id = true) :
    id = o.orderId ∨ ∃ e, (s.engine.orderBook o.symbol).ordersById[id]? = some e ∧
      e.hasPrice = true := by
  obtain ⟨hfill, _, _, hindex⟩ := h.pending o (List.mem_of_getElem? hn)
  exact matchOrderWith_named matchEnv _ (h.live _) (hindex _) hfill.ge hx hname

/-- The copies the call hands out are of the incoming order or of orders in its book. -/
theorem shown_execute (h : s.Inv) {n : ℕ} {o : Order} (hn : s.inFlight[n]? = some o)
    (matchEnv : Env) {c : Order}
    (hc : c ∈ (matchOrder matchEnv (s.engine.orderBook o.symbol) o).result.updatedOrders ++
      [(matchOrder matchEnv (s.engine.orderBook o.symbol) o).order]) :
    c.orderId = o.orderId ∨
      ∃ e, (s.engine.orderBook o.symbol).ordersById[c.orderId]? = some e := by
  obtain ⟨hfill, _, _, hindex⟩ := h.pending o (List.mem_of_getElem? hn)
  rcases List.mem_append.mp hc with hc | hc
  · exact matchOrderWith_reported matchEnv _ (h.live _) (hindex _) hfill.ge hc
  · rw [List.mem_singleton.mp hc]
    exact Or.inl (matchOrderWith_orderId matchEnv _ (h.live _) (hindex _) hfill.ge)

/-- The index of a book after the call holds old ids and possibly the incoming one. -/
theorem lookup_execute (h : s.Inv) {n : ℕ} {o : Order} (hn : s.inFlight[n]? = some o)
    (matchEnv : Env) {id : String} {e : Order}
    (he : (matchOrder matchEnv (s.engine.orderBook o.symbol) o).book.ordersById[id]? = some e) :
    id = o.orderId ∨ ∃ e₀, (s.engine.orderBook o.symbol).ordersById[id]? = some e₀ ∧
      e.side = e₀.side ∧ e.price = e₀.price := by
  obtain ⟨hfill, _, _, hindex⟩ := h.pending o (List.mem_of_getElem? hn)
  rcases matchOrderWith_lookup matchEnv _ (h.live _) (hindex _) hfill.ge he with hold | ⟨hid, _⟩
  · exact Or.inr hold
  · exact Or.inl hid

theorem executedQuantity_append_unnamed {id : String} {es es' : List Execution}
    (h : ∀ x ∈ es', ¬ x.names id = true) :
    executedQuantity id (es ++ es') = executedQuantity id es := by
  have hnil : es'.filter (fun e => e.names id) = [] := List.filter_eq_nil_iff.mpr h
  simp [executedQuantity, List.filter_append, hnil]

theorem tally_execute (h : s.Inv) {n : ℕ} {o : Order} (hn : s.inFlight[n]? = some o)
    (matchEnv : Env) (symbol : String) :
    let out := matchOrder matchEnv (s.engine.orderBook o.symbol) o
    Tally s.quantityOf (s.executions ++ out.result.executions)
      (s.shown ++ out.result.updatedOrders ++ [out.order])
      (if o.symbol = symbol then out.book else s.engine.orderBook symbol) := by
  intro out
  obtain ⟨hfill, hcopy, ⟨o', ho', _, hq⟩, hindex⟩ := h.pending o (List.mem_of_getElem? hn)
  have htally : Tally s.quantityOf (s.executions ++ out.result.executions)
      (s.shown ++ out.result.updatedOrders ++ [out.order]) out.book := by
    apply (h.tally o.symbol).matchOrderWith matchEnv _ (h.live _) (hindex _)
      ((h.tally o.symbol).unseen hcopy) hfill
    simp [quantityOf, ho', hq]
  split_ifs with hs
  · exact htally
  · refine ⟨?_, htally.shown, htally.unseen⟩
    intro id e he
    rw [executedQuantity_append_unnamed]
    · exact (h.tally symbol).index he
    · intro x hx hname
      obtain ⟨y, hy, hysym⟩ := h.indexed he
      rcases named_execute h hn matchEnv hx hname with rfl | ⟨e₀, he₀, _⟩
      · rw [hindex] at he
        cases he
      · obtain ⟨z, hz, hzsym⟩ := h.indexed he₀
        rw [hy, Option.some.injEq] at hz
        exact hs (hzsym.symm.trans (hz ▸ hysym))

theorem inv_execute (h : s.Inv) {n : ℕ} {o : Order} (hn : s.inFlight[n]? = some o)
    (matchEnv continuousEnv : Env) : (s.step (.execute n matchEnv continuousEnv)).Inv := by
  obtain ⟨hactor, hflight, hexec, hshown, hbook⟩ := step_execute h hn matchEnv continuousEnv
  obtain ⟨hfill, _, ⟨o', ho', hsym, _⟩, hindex⟩ := h.pending o (List.mem_of_getElem? hn)
  obtain ⟨hnodup, hother⟩ := eraseIdx_ids hn h.nodup
  have hquantity : (s.step (.execute n matchEnv continuousEnv)).quantityOf = s.quantityOf := by
    funext id
    rw [quantityOf, hactor, quantityOf]
  refine ⟨?_, ?_, ?_, ?_, ?_, ?_, ?_⟩
  · intro symbol
    rw [hbook]
    split_ifs
    · exact live_matchOrderWith matchEnv _ (h.live _) (hindex _) hfill.ge
    · exact h.live symbol
  · intro symbol
    rw [hbook]
    split_ifs
    · exact uncrossed_matchOrderWith matchEnv _ (h.live _) (hindex _) hfill.ge (h.uncrossed _)
    · exact h.uncrossed symbol
  · intro symbol id e he
    rw [hbook] at he
    rw [hactor]
    split_ifs at he with hs
    · subst symbol
      rcases lookup_execute h hn matchEnv he with rfl | ⟨e₀, he₀, _⟩
      · exact ⟨o', ho', hsym⟩
      · exact h.indexed he₀
    · exact h.indexed he
  · intro c hc
    rw [hshown, List.append_assoc] at hc
    rw [hactor]
    rcases List.mem_append.mp hc with hc | hc
    · exact h.stored c hc
    · rcases shown_execute h hn matchEnv hc with heq | ⟨e, he⟩
      · exact ⟨o', heq ▸ ho'⟩
      · obtain ⟨x, hx, _⟩ := h.indexed he
        exact ⟨x, hx⟩
  · intro x hx
    rw [hflight] at hx
    obtain ⟨hxfill, hxcopy, hxstored, hxindex⟩ := h.pending x (List.mem_of_mem_eraseIdx hx)
    have hxo := hother x hx
    rw [hactor, hshown]
    refine ⟨hxfill, ?_, hxstored, ?_⟩
    · rw [latestCopy_eq_none, List.append_assoc]
      intro c hc
      rcases List.mem_append.mp hc with hc | hc
      · exact latestCopy_eq_none.mp hxcopy c hc
      · rcases shown_execute h hn matchEnv hc with heq | ⟨e, he⟩
        · rw [heq]
          exact Ne.symm hxo
        · intro heq
          rw [heq, hxindex] at he
          cases he
    · intro symbol
      rw [hbook]
      split_ifs with hs
      · cases hfound : (matchOrder matchEnv (s.engine.orderBook o.symbol)
            o).book.ordersById[x.orderId]? with
        | none => rfl
        | some e =>
            rcases lookup_execute h hn matchEnv hfound with heq | ⟨e₀, he₀, _⟩
            · exact absurd heq hxo
            · rw [hxindex] at he₀
              cases he₀
      · exact hxindex symbol
  · rw [hflight]
    exact hnodup
  · intro symbol
    rw [hquantity, hexec, hshown, hbook]
    exact tally_execute h hn matchEnv symbol

theorem inv_step (s : TradingSystem) (op : SystemOp) (h : s.Inv) (hok : s.Ok op) :
    (s.step op).Inv := by
  cases op with
  | create request answerUuid orderUuid now =>
      exact inv_create h request answerUuid orderUuid now hok
  | cancel request now => exact inv_cancel h request now
  | execute n matchEnv continuousEnv =>
      cases hn : s.inFlight[n]? with
      | none => simpa only [step, hn] using h
      | some o => exact inv_execute h hn matchEnv continuousEnv

end Steps

section Cancelled

variable {s : TradingSystem} {id : String}

/-- No step can bring the order to a match any more. -/
structure Gone (s : TradingSystem) (id : String) : Prop where
  stored : ∃ o, s.orderActor.orders[id]? = some o
  handled : ∀ o ∈ s.inFlight, o.orderId ≠ id
  unlisted : ∀ (symbol : String) (side : OrderSide) (k : ℤ) (e : Order),
    ((s.engine.orderBook symbol).levels side).Holds k e → e.orderId ≠ id

theorem Settled.gone (hset : s.Settled id) (h : s.Inv) {o : Order}
    (ho : s.orderActor.orders[id]? = some o) : s.Gone id := by
  refine ⟨⟨o, ho⟩, hset.handled, ?_⟩
  intro symbol side k e he heq
  obtain ⟨x, hx, rfl⟩ := h.indexed ((h.live symbol).coherent.indexed he).1
  rw [heq] at hx
  exact hset.unlisted hx e (Coherent.mem_entries he) heq

/-- The executions of a step on a gone order do not name it, and it stays gone. -/
theorem gone_step (h : s.Inv) (hgone : s.Gone id) (op : SystemOp) (hok : s.Ok op) :
    (s.step op).Gone id ∧ ∃ new, (s.step op).executions = s.executions ++ new ∧
      ∀ e ∈ new, e.names id = false := by
  obtain ⟨o₀, ho₀⟩ := hgone.stored
  cases op with
  | create request answerUuid orderUuid now =>
      have hne : (Order.fromRequest orderUuid now request).orderId ≠ id := by
        rintro rfl
        rw [show s.orderActor.orders[_]? = none from hok] at ho₀
        cases ho₀
      refine ⟨⟨?_, ?_, hgone.unlisted⟩, [], (List.append_nil _).symm, by simp⟩
      · simp only [step, OrderActor.handleCreateOrder_eq, OrderActor.createAndExecuteOrder]
        rw [OrderActor.storeOrder_lookup, if_neg hne]
        exact ⟨o₀, ho₀⟩
      · intro o ho
        simp only [step, OrderActor.handleCreateOrder_eq, OrderActor.createAndExecuteOrder] at ho
        rcases List.mem_append.mp ho with ho | ho
        · exact hgone.handled o ho
        · obtain ⟨_, _, rfl⟩ := Option.map_eq_some_iff.mp (Option.mem_toList.mp ho)
          exact hne
  | cancel request now =>
      refine ⟨⟨?_, hgone.handled, hgone.unlisted⟩, [], (List.append_nil _).symm, by simp⟩
      obtain ⟨o', ho', _⟩ :=
        OrderActor.cancelOrder_lookup ho₀ request.orderId request.clientId now
      exact ⟨o', ho'⟩
  | execute n matchEnv continuousEnv =>
      cases hn : s.inFlight[n]? with
      | none =>
          have hsame : s.step (.execute n matchEnv continuousEnv) = s := by simp only [step, hn]
          rw [hsame]
          exact ⟨hgone, [], (List.append_nil _).symm, by simp⟩
      | some o =>
          obtain ⟨hactor, hflight, hexec, _, hbook⟩ := step_execute h hn matchEnv continuousEnv
          have hio : o.orderId ≠ id := hgone.handled o (List.mem_of_getElem? hn)
          have hpriced : ∀ {e : Order},
              (s.engine.orderBook o.symbol).ordersById[id]? = some e → e.hasPrice = false := by
            intro e he
            by_contra hp
            have hco := (h.live o.symbol).coherent
            exact hgone.unlisted _ _ _ e (hco.listed he (by simpa using hp)) (hco.index_id he)
          refine ⟨⟨?_, ?_, ?_⟩, _, hexec, ?_⟩
          · rw [hactor]
            exact ⟨o₀, ho₀⟩
          · intro x hx
            rw [hflight] at hx
            exact hgone.handled x (List.mem_of_mem_eraseIdx hx)
          · intro symbol side k e he heq
            have hco := ((inv_execute h hn matchEnv continuousEnv).live symbol).coherent
            obtain ⟨hidx, _, hp, _⟩ := hco.indexed he
            rw [hbook] at hidx he
            split_ifs at hidx he
            · rcases lookup_execute h hn matchEnv hidx with hid | ⟨e₀, he₀, _, hprice⟩
              · exact hio (hid.symm.trans heq)
              · rw [heq] at he₀
                have hp₀ := hpriced he₀
                simp only [Order.hasPrice, ← hprice] at hp₀
                simp only [Order.hasPrice, hp₀] at hp
                cases hp
            · exact hgone.unlisted symbol side k e he heq
          · intro x hx
            by_contra hname
            rw [Bool.not_eq_false] at hname
            rcases named_execute h hn matchEnv hx hname with hid | ⟨e, he, hp⟩
            · exact hio hid.symm
            · rw [hpriced he] at hp
              cases hp

theorem gone_run (h : s.Inv) (hgone : s.Gone id) {ops : List SystemOp}
    (hops : Runs.Admissible step Ok s ops) :
    ∃ new, (Runs.run step s ops).executions = s.executions ++ new ∧
      ∀ e ∈ new, e.names id = false := by
  induction ops generalizing s with
  | nil => exact ⟨[], (List.append_nil _).symm, by simp⟩
  | cons op ops ih =>
      obtain ⟨hgone', new, hnew, hsilent⟩ := gone_step h hgone op hops.1
      obtain ⟨more, hmore, hquiet⟩ := ih (inv_step s op h hops.1) hgone' hops.2
      refine ⟨new ++ more, ?_, ?_⟩
      · rw [Runs.run_cons, hmore, hnew, List.append_assoc]
      · intro e he
        rcases List.mem_append.mp he with he | he
        · exact hsilent e he
        · exact hquiet e he

/-- After an accepted cancellation no execution of the rest of the run names the order, and the
order was not executed in full when it was accepted. -/
structure SafelyCancelled (s : TradingSystem) (id : String) (later : TradingSystem) : Prop where
  silent : ∀ e ∈ later.executions.drop s.executions.length, e.names id = false
  openOrder : ∀ {o : Order}, s.orderActor.orders[id]? = some o → 0 < o.quantity →
    executedQuantity id s.executions < o.quantity

end Cancelled

/-- In every run whose accepted cancellations are for orders the engine is done with, cancelled
orders stay untouched and none of them was executed in full. -/
theorem run_cancel_safe (actorId engineId : String) (engine riskManager : Option ActorRef)
    (ops later : List SystemOp) (request : CancelOrderRequest) (now : DateTime)
    (h : Runs.Admissible step (fun s op => s.Ok op ∧ s.CancelsSettled op)
      (init actorId engineId engine riskManager) (ops ++ .cancel request now :: later)) :
    let s := Runs.run step (init actorId engineId engine riskManager) ops
    (s.orderActor.cancelOrder request.orderId request.clientId now).2 =
        .accepted request.orderId →
      s.SafelyCancelled request.orderId
        (Runs.run step (s.step (.cancel request now)) later) := by
  intro s haccepted
  obtain ⟨hops, ⟨_, hsettled⟩, hlater⟩ := Runs.admissible_append.mp h
  have hinv : s.Inv := Runs.invariant_run (fun s op hs hok => inv_step s op hs hok.1)
    (inv_init actorId engineId engine riskManager) hops
  have hset : s.Settled request.orderId := hsettled haccepted
  obtain ⟨_, o₀, ho₀, _⟩ := OrderActor.cancelOrder_accepted haccepted
  refine ⟨?_, ?_⟩
  · have hrest : Runs.Admissible step Ok s (.cancel request now :: later) :=
      ⟨trivial, Runs.admissible_mono (fun _ _ hok => hok.1) hlater⟩
    obtain ⟨new, hnew, hsilent⟩ := gone_run hinv (hset.gone hinv ho₀) hrest
    intro e he
    rw [← Runs.run_cons, hnew, List.drop_left] at he
    exact hsilent e he
  · intro o ho hpos
    have hQ : s.quantityOf request.orderId = o.quantity := by simp [quantityOf, ho]
    have htally := hinv.tally ""
    cases hcopy : latestCopy s.shown request.orderId with
    | none => rwa [htally.unseen hcopy]
    | some c =>
        rw [← hQ] at hpos ⊢
        exact htally.shown hcopy (hset.unfilled c hcopy) hpos

section Samples

def sampleEnv : Env := ⟨fun n => n, fun n => toString n⟩

/-- A resting sell order is cancelled, and a later buy order still trades with it. -/
theorem cancelled_order_trades : ¬ ∀ (actorId engineId : String)
    (engine riskManager : Option ActorRef) (ops later : List SystemOp)
    (request : CancelOrderRequest) (now : DateTime),
    Runs.Admissible step Ok (init actorId engineId engine riskManager)
      (ops ++ .cancel request now :: later) →
    ((Runs.run step (init actorId engineId engine riskManager) ops).orderActor.cancelOrder
      request.orderId request.clientId now).2 = .accepted request.orderId →
    (Runs.run step (init actorId engineId engine riskManager) ops).SafelyCancelled
      request.orderId (Runs.run step (init actorId engineId engine riskManager)
        (ops ++ .cancel request now :: later)) := by
  intro hall
  let ops : List SystemOp :=
    [.create ⟨some "s1", "AAPL", .sell, some 100, 5, "alice", .limit⟩ "" "" 0,
      .execute 0 sampleEnv sampleEnv]
  let later : List SystemOp :=
    [.create ⟨some "b1", "AAPL", .buy, some 100, 5, "bob", .limit⟩ "" "" 2,
      .execute 0 sampleEnv sampleEnv]
  have hsafe := hall "orders" "engine" (some "/engine") none ops later ⟨"s1", "alice"⟩ 1
    (by decide +kernel) (by decide +kernel)
  have hnamed : ((Runs.run step (init "orders" "engine" (some "/engine") none)
      (ops ++ .cancel ⟨"s1", "alice"⟩ 1 :: later)).executions.drop
        (Runs.run step (init "orders" "engine" (some "/engine") none)
          ops).executions.length).all (fun e => e.names "s1" = false) = false := by
    decide +kernel
  have hall' := List.all_eq_false.mp hnamed
  obtain ⟨e, he, hname⟩ := hall'
  exact hname (decide_eq_true (hsafe.silent e he))

/-- A market order without counterparty, already dropped by the engine when it is cancelled. -/
def droppedMarketOrder : List SystemOp :=
  [.create ⟨some "m1", "AAPL", .buy, none, 5, "alice", .market⟩ "" "" 0,
    .execute 0 sampleEnv sampleEnv]

def laterSellOrder : List SystemOp :=
  [.create ⟨some "s1", "AAPL", .sell, some 100, 5, "bob", .limit⟩ "" "" 2,
    .execute 0 sampleEnv sampleEnv]

theorem dropped_market_order_cancel_safe :
    let s := Runs.run step (init "orders" "engine" (some "/engine") none) droppedMarketOrder
    (s.orderActor.cancelOrder "m1" "alice" 1).2 = .accepted "m1" ∧
      s.SafelyCancelled "m1" (Runs.run step (s.step (.cancel ⟨"m1", "alice"⟩ 1))
        laterSellOrder) := by
  intro s
  have haccepted : (s.orderActor.cancelOrder "m1" "alice" 1).2 = .accepted "m1" := by
    decide +kernel
  have hsettled : s.Settled "m1" := by
    refine ⟨?_, ?_, ?_⟩
    · have hnone : s.inFlight = [] := by decide +kernel
      simp [hnone]
    · intro o ho
      have hsym : (s.orderActor.orders["m1"]?).map Order.symbol = some "AAPL" := by
        decide +kernel
      have hempty : (s.engine.orderBook "AAPL").entries = [] := by decide +kernel
      rw [ho, Option.map_some, Option.some.injEq] at hsym
      simp [hsym, hempty]
    · intro c hc
      have hstatus : (latestCopy s.shown "m1").map Order.status = some .cancelled := by
        decide +kernel
      rw [hc, Option.map_some, Option.some.injEq] at hstatus
      simp [hstatus]
  refine ⟨haccepted, run_cancel_safe "orders" "engine" (some "/engine") none droppedMarketOrder
    laterSellOrder ⟨"m1", "alice"⟩ 1 ?_ haccepted⟩
  exact ⟨⟨by decide +kernel, trivial⟩, ⟨trivial, trivial⟩, ⟨trivial, fun _ => hsettled⟩,
    ⟨by decide +kernel, trivial⟩, ⟨trivial, trivial⟩, trivial⟩

end Samples

end TradingSystem

end ActixPura
