import ActixPura.LiveBook

/-!
# Executions as records of two orders

Matching changes the fill state of an order and nothing else, so every execution is the record of
two orders as they were before the call: of the incoming order and a waiting one in `match_order`,
of a waiting buy and a waiting sell order in `continuous_match`. The price of the record is
determined by the waiting order, or by the sell order.
-/

namespace ActixPura

open OrderBook

/-- What an order asks for, without its fill state. -/
def Order.terms (o : Order) : Order :=
  { o with status := .new, filledQuantity := 0, updatedAt := 0 }

namespace Order

variable {o o' : Order} (h : o.terms = o'.terms)

include h

theorem orderId_of_terms : o.orderId = o'.orderId := (congrArg Order.orderId h :)

theorem accountId_of_terms : o.accountId = o'.accountId := (congrArg Order.accountId h :)

theorem symbol_of_terms : o.symbol = o'.symbol := (congrArg Order.symbol h :)

theorem side_of_terms : o.side = o'.side := (congrArg Order.side h :)

theorem orderType_of_terms : o.orderType = o'.orderType := (congrArg Order.orderType h :)

theorem price_of_terms : o.price = o'.price := (congrArg Order.price h :)

theorem priceKey_of_terms : o.priceKey = o'.priceKey := by
  rw [priceKey, priceKey, price_of_terms h]

theorem hasPrice_of_terms : o.hasPrice = o'.hasPrice := by
  rw [hasPrice, hasPrice, price_of_terms h]

end Order

namespace OrderMatcher

/-- Every order of `b'` is an order of `b`, up to its fill state. -/
def SameTerms (b b' : OrderBook) : Prop :=
  ∀ ⦃id : String⦄ ⦃e : Order⦄, b'.ordersById[id]? = some e →
    ∃ e₀, b.ordersById[id]? = some e₀ ∧ e.terms = e₀.terms

theorem fillResting_terms (o : Order) (qty : ℚ) (now : DateTime) :
    (fillResting o qty now).terms = o.terms := by
  unfold fillResting
  dsimp only
  split_ifs <;> rfl

section Terms

variable {b b' : OrderBook} {c c₀ o o₀ : Order}

theorem SameTerms.refl (b : OrderBook) : SameTerms b b := fun _ _ he => ⟨_, he, rfl⟩

/-- What waits in a level of `b'` waited in the same level of `b`. -/
theorem SameTerms.holds (h : SameTerms b b') (hb : b.Coherent) (hb' : b'.Coherent)
    {side : OrderSide} {k : ℤ} (hc : (b'.levels side).Holds k c) :
    ∃ c₀, (b.levels side).Holds k c₀ ∧ c.terms = c₀.terms := by
  obtain ⟨hidx, hside, hprice, hkey⟩ := hb'.indexed hc
  obtain ⟨c₀, hc₀, hterms⟩ := h hidx
  refine ⟨c₀, hb.holds_iff.mpr ⟨?_, ?_, ?_, ?_⟩, hterms⟩
  · rw [hb.index_id hc₀]
    exact hc₀
  · rw [← Order.side_of_terms hterms, hside]
  · rw [← Order.hasPrice_of_terms hterms, hprice]
  · rw [← Order.priceKey_of_terms hterms, hkey]

theorem createExecutionRecord_congr (env : Env) (n : ℕ) (price qty : ℚ) (hc : c.terms = c₀.terms)
    (ho : o.terms = o₀.terms) :
    createExecutionRecord env n o c price qty = createExecutionRecord env n o₀ c₀ price qty := by
  simp only [createExecutionRecord, Order.orderId_of_terms hc, Order.accountId_of_terms hc,
    Order.orderId_of_terms ho, Order.accountId_of_terms ho, Order.symbol_of_terms ho]

theorem takerRecord_congr (env : Env) (n : ℕ) (taker : OrderSide) (price qty : ℚ)
    (hc : c.terms = c₀.terms) (ho : o.terms = o₀.terms) :
    takerRecord env n taker o c price qty = takerRecord env n taker o₀ c₀ price qty := by
  cases taker with
  | buy => exact createExecutionRecord_congr env n price qty hc ho
  | sell => exact createExecutionRecord_congr env n price qty ho hc

theorem execPrice_congr (o : Order) (hc : c.terms = c₀.terms) :
    execPrice o c = execPrice o c₀ := by
  rw [execPrice, execPrice, Order.priceKey_of_terms hc, Order.price_of_terms hc]

end Terms

section Taker

variable {env : Env} {b : OrderBook} {o : Order}

/-- The execution is the record of a match of `o` with the waiting order `c`. -/
def Records (env : Env) (o c : Order) (e : Execution) : Prop :=
  ∃ n qty, e = takerRecord env n o.side o c (execPrice o c) qty

/-- What the loops of a call keep about the records it has made. -/
structure Recording (env : Env) (b : OrderBook) (o : Order) (s : MatchState) : Prop where
  order : s.order.terms = o.terms
  waiting : SameTerms b s.book
  recorded : ∀ e ∈ s.result.executions,
    ∃ c, (b.levels o.side.opposite).Holds c.priceKey c ∧ Records env o c e

theorem recording_matchCandidate {s : MatchState} {c : Order} (h : Recording env b o s)
    (hb : b.Coherent) (hs : s.book.Coherent)
    (hc : (s.book.levels o.side.opposite).Holds c.priceKey c) :
    Recording env b o (matchCandidate env o.side (execPrice o c) s c) := by
  obtain ⟨c₀, hc₀, hterms⟩ := h.waiting.holds hb hs hc
  have hkey : c.priceKey = c₀.priceKey := (hb.indexed hc₀).2.2.2.symm
  refine ⟨h.order, ?_, ?_⟩
  · intro id e he
    rcases matchCandidate_lookup he with ⟨-, he⟩ | ⟨hid, rfl, -⟩
    · exact h.waiting he
    · refine ⟨c₀, ?_, (fillResting_terms _ _ _).trans hterms⟩
      rw [← hid, Order.orderId_of_terms hterms]
      exact (hb.indexed hc₀).1
  · intro e he
    rw [matchCandidate_executions, List.mem_append, List.mem_singleton] at he
    rcases he with he | rfl
    · exact h.recorded e he
    · refine ⟨c₀, hkey ▸ hc₀, s.result.executions.length, matchQuantity s c, ?_⟩
      rw [takerRecord_congr env _ _ _ _ hterms h.order, execPrice_congr o hterms]

theorem recording_matchByType (env : Env) (fuel : ℕ) (hb : b.Coherent) (o : Order) :
    Recording env b o (matchByType fuel env b o) := by
  have hstart : Recording env b o (start b o) :=
    ⟨rfl, SameTerms.refl b, by simp [start, MatchResult.new]⟩
  refine (matchByType_induction fuel hb hstart ?_).2
  intro s c hs h _ _ hc
  exact recording_matchCandidate h hb hs hc

/-- Every execution of `match_order` records a match of the incoming order with a waiting one. -/
theorem records_matchOrderWith (fuel : ℕ) (env : Env) (hb : b.Coherent) {e : Execution}
    (he : e ∈ (matchOrderWith fuel env b o).result.executions) :
    ∃ c, (b.levels o.side.opposite).Holds c.priceKey c ∧ Records env o c e := by
  cases hact : o.isActive with
  | false => simp [matchOrderWith, hact, MatchResult.new] at he
  | true =>
      rw [matchOrderWith_executions fuel env b hact] at he
      exact (recording_matchByType env fuel hb o).recorded e he

end Taker

section Pairs

variable {env : Env} {b : OrderBook}

/-- The execution is the record of a match of two waiting orders of `b` whose levels cross. -/
structure PairRecord (env : Env) (b : OrderBook) (buy sell : Order) (e : Execution) : Prop where
  buyer : (b.levels .buy).Holds buy.priceKey buy
  seller : (b.levels .sell).Holds sell.priceKey sell
  crosses : sell.priceKey ≤ buy.priceKey
  record : ∃ n qty, 0 < qty ∧
    e = createExecutionRecord env n buy sell (sell.priceKey / 100) qty

/-- What the rounds of `continuous_match` keep about the records they have made. -/
structure Pairing (env : Env) (b : OrderBook) (s : OrderBook × MatchResult) : Prop where
  live : Live s.1
  waiting : SameTerms b s.1
  recorded : ∀ e ∈ s.2.executions, ∃ buy sell, PairRecord env b buy sell e

theorem pairRecord_round (env : Env) {b' : OrderBook} (hb : b.Coherent) (hs : Live b')
    (h : SameTerms b b') {kb ks : ℤ} {buyOrder sellOrder : Order}
    (hbuy : (b'.levels .buy).Holds kb buyOrder)
    (hsell : (b'.levels .sell).Holds ks sellOrder) (hcross : ks ≤ kb) (n : ℕ) :
    ∃ buy sell, buyOrder.terms = buy.terms ∧ sellOrder.terms = sell.terms ∧
      PairRecord env b buy sell (createExecutionRecord env n buyOrder sellOrder (ks / 100)
        (min buyOrder.remainingQuantity sellOrder.remainingQuantity)) := by
  obtain ⟨buy, hbuy₀, hbt⟩ := h.holds hb hs.coherent hbuy
  obtain ⟨sell, hsell₀, hst⟩ := h.holds hb hs.coherent hsell
  have hkb := (hb.indexed hbuy₀).2.2.2
  have hks := (hb.indexed hsell₀).2.2.2
  have hqty : 0 < min buyOrder.remainingQuantity sellOrder.remainingQuantity :=
    lt_min (hs.resting_of_holds hbuy).remaining_pos (hs.resting_of_holds hsell).remaining_pos
  refine ⟨buy, sell, hbt, hst, hkb ▸ hbuy₀, hks ▸ hsell₀, by rwa [hkb, hks], n, _, hqty, ?_⟩
  rw [createExecutionRecord_congr env n _ _ hst hbt, hks]

theorem pairing_round (hb : b.Coherent) {s s' : OrderBook × MatchResult} (h : Pairing env b s)
    (hs : continuousRound env s = some s') : Pairing env b s' := by
  obtain ⟨b', r⟩ := s
  obtain ⟨kb, ks, buyOrder, sellOrder, qb, qs, hqb, hqs, hcross, -, -, rfl⟩ :=
    continuousRound_some h.live.coherent hs
  have hbuy : (b'.levels .buy).Holds kb buyOrder := ⟨_, hqb, List.mem_cons_self⟩
  have hsell : (b'.levels .sell).Holds ks sellOrder := ⟨_, hqs, List.mem_cons_self⟩
  obtain ⟨buy, sell, hbt, hst, hrecord⟩ :=
    pairRecord_round env hb h.live h.waiting hbuy hsell hcross r.executions.length
  refine ⟨live_matchPair h.live hbuy hsell, ?_, ?_⟩
  · intro id e he
    have hback : ∀ {c c₀ : Order} {side : OrderSide} {k : ℤ} (qty : ℚ) (now : DateTime),
        (b.levels side).Holds k c₀ → c.terms = c₀.terms → (fillResting c qty now).orderId = id →
        ∃ e₀, b.ordersById[id]? = some e₀ ∧ (fillResting c qty now).terms = e₀.terms := by
      intro c c₀ side k qty now hc₀ hterms hid
      refine ⟨c₀, ?_, (fillResting_terms _ _ _).trans hterms⟩
      rw [← hid, fillResting_orderId, Order.orderId_of_terms hterms]
      exact (hb.indexed hc₀).1
    simp only [matchPair] at he
    rcases reinsert_lookup he with ⟨hid, rfl, -⟩ | he
    · exact hback _ _ hrecord.seller hst hid
    rcases reinsert_lookup he with ⟨hid, rfl, -⟩ | he
    · exact hback _ _ hrecord.buyer hbt hid
    rw [removeOrder_lookup, removeOrder_lookup] at he
    split_ifs at he
    exact h.waiting he
  · intro e he
    change e ∈ r.executions ++ [_] at he
    rw [List.mem_append, List.mem_singleton] at he
    rcases he with he | rfl
    · exact h.recorded e he
    · exact ⟨buy, sell, hrecord⟩

theorem pairing_continuousMatchWith (env : Env) (fuel : ℕ) (hb : Live b) :
    Pairing env b (continuousMatchWith fuel env b) := by
  have hstart : Pairing env b (b, .new) := ⟨hb, SameTerms.refl b, by simp [MatchResult.new]⟩
  exact Runs.loop_invariant (fun _ _ h hs => pairing_round hb.coherent h hs) fuel hstart

end Pairs

end OrderMatcher

end ActixPura
