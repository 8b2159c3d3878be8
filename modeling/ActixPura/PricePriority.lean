import ActixPura.LiveBook

/-!
# When `match_order` trades from best to worst price

A market order takes the best opposite level in every round, and `get_matching_sell_orders` walks
the sell levels upwards, which is best first for a buyer. `get_matching_buy_orders` walks upwards
as well, which is worst first for a seller. The executions of a call therefore respect price
priority unless a limit sell order with quantity left finds eligible buy orders on two levels.

Nothing is assumed about the filled quantities in the book. An order with a negative one may return
to the book after its whole remainder was traded, so priority is stated about the orders the call
started with.
-/

namespace ActixPura

open OrderBook

namespace OrderMatcher

section Priority

variable {b : OrderBook} {o : Order}

/-- The waiting orders the incoming order may trade with. -/
def Eligible (b : OrderBook) (o r : Order) : Prop :=
  (b.levels o.side.opposite).Holds r.priceKey r ∧
    (o.orderType = .limit → ¬ Better o.side o.priceKey r.priceKey)

/-- The execution names the incoming order `o`, the resting order `r` and nothing else. -/
def Trades (o : Order) (e : Execution) (r : Order) : Prop :=
  ∀ id, e.names id = true ↔ o.orderId = id ∨ r.orderId = id

def TradedWhole (es : List Execution) (r : Order) : Prop :=
  ∃ e ∈ es, e.names r.orderId = true ∧ e.quantity = r.remainingQuantity

theorem TradedWhole.append {es : List Execution} {r : Order} (h : TradedWhole es r)
    (es' : List Execution) : TradedWhole (es ++ es') r := by
  obtain ⟨e, he, hr⟩ := h
  exact ⟨e, List.mem_append_left _ he, hr⟩

/-- Every execution trades an eligible order, prices never improve from one execution to a later
one, and every eligible order with a strictly better key was traded whole before. -/
structure PricePriority (b : OrderBook) (o : Order) (es : List Execution) : Prop where
  named : ∀ e ∈ es, ∃ r, Eligible b o r ∧ Trades o e r
  ordered : es.Pairwise (fun e e' => ∀ r r', Eligible b o r → Eligible b o r' → Trades o e r →
    Trades o e' r' → ¬ Better o.side r'.priceKey r.priceKey)
  better_first : ∀ l e l', es = l ++ e :: l' → ∀ r r', Eligible b o r → Trades o e r →
    Eligible b o r' → Better o.side r'.priceKey r.priceKey → TradedWhole l r'

theorem pricePriority_nil (b : OrderBook) (o : Order) : PricePriority b o [] where
  named := by simp
  ordered := List.Pairwise.nil
  better_first := by simp

theorem trades_unique (hb : b.Coherent) (hfresh : b.ordersById[o.orderId]? = none) {e : Execution}
    {r r' : Order} (hr : Eligible b o r) (hr' : Eligible b o r') (ht : Trades o e r)
    (ht' : Trades o e r') : r = r' := by
  have hi := (hb.indexed hr.1).1
  have hi' := (hb.indexed hr'.1).1
  rcases (ht' r.orderId).mp ((ht r.orderId).mpr (Or.inr rfl)) with heq | heq
  · rw [← heq, hfresh] at hi
    cases hi
  · rw [heq, hi] at hi'
    exact Option.some.inj hi'

/-- Priority after one more execution: no earlier one had a worse price, and what is strictly
better was traded whole. -/
theorem PricePriority.append {es : List Execution} (h : PricePriority b o es) (hb : b.Coherent)
    (hfresh : b.ordersById[o.orderId]? = none) {c : Order} (hc : Eligible b o c) {x : Execution}
    (hx : Trades o x c)
    (hprev : ∀ e ∈ es, ∀ r, Eligible b o r → Trades o e r →
      ¬ Better o.side c.priceKey r.priceKey)
    (hbetter : ∀ r, Eligible b o r → Better o.side r.priceKey c.priceKey → TradedWhole es r) :
    PricePriority b o (es ++ [x]) := by
  refine ⟨?_, ?_, ?_⟩
  · intro e he
    rcases List.mem_append.mp he with he | he
    · exact h.named e he
    · rw [List.mem_singleton.mp he]
      exact ⟨c, hc, hx⟩
  · rw [List.pairwise_append]
    refine ⟨h.ordered, List.pairwise_singleton _ _, ?_⟩
    intro e he e' he' r r' hr hr' ht ht'
    rw [List.mem_singleton.mp he'] at ht'
    rw [trades_unique hb hfresh hr' hc ht' hx]
    exact hprev e he r hr ht
  · intro l e l' hsplit r r' hr ht hr' hlt
    rcases Runs.split_snoc hsplit with ⟨rfl, rfl⟩ | ⟨l'', hes⟩
    · rw [trades_unique hb hfresh hr hc ht hx] at hlt
      exact hbetter r' hr' hlt
    · exact h.better_first l e l'' hes r r' hr ht hr' hlt

end Priority

section Loops

variable {env : Env} {b : OrderBook} {o : Order} {s : MatchState} {c : Order} {price : ℚ}

theorem trades_takerRecord (hid : s.order.orderId = o.orderId) {r : Order}
    (hr : r.orderId = c.orderId) (env : Env) (n : ℕ) (price qty : ℚ) :
    Trades o (takerRecord env n o.side s.order c price qty) r := by
  intro id
  rw [takerRecord_names, hid, hr]

/-- A match with an original order trades it whole or finishes the incoming order. -/
theorem tradedWhole_or_done (taker : OrderSide) :
    TradedWhole (matchCandidate env taker price s c).result.executions c ∨
      (matchCandidate env taker price s c).remainingQty ≤ 0 := by
  rcases min_choice s.remainingQty c.remainingQuantity with hm | hm
  · right
    rw [matchCandidate_remainingQty, matchQuantity, hm, sub_self]
  · left
    refine ⟨_, List.mem_append_right _ (List.mem_singleton_self _), ?_, ?_⟩
    · exact (takerRecord_names _ _ _ _ _ _ _ _).mpr (Or.inr rfl)
    · rw [takerRecord_quantity]
      exact hm

/-- What the market loop keeps about the book `b` it started with. -/
structure MarketFront (b : OrderBook) (o : Order) (s : MatchState) : Prop where
  orderId : s.order.orderId = o.orderId
  origin : ∀ {k : ℤ} {e : Order}, (s.book.levels o.side.opposite).Holds k e →
    ∃ e₀, e₀.orderId = e.orderId ∧ (b.levels o.side.opposite).Holds k e₀
  untouched : ∀ {r : Order}, Eligible b o r →
    (s.book.levels o.side.opposite).Holds r.priceKey r ∨ TradedWhole s.result.executions r ∨
      s.remainingQty ≤ 0
  reached : ∀ e ∈ s.result.executions, ∀ r, Eligible b o r → Trades o e r →
    BestKey o.side s.book r.priceKey
  priority : PricePriority b o s.result.executions

theorem marketFront_start (b : OrderBook) (o : Order) : MarketFront b o (start b o) where
  orderId := rfl
  origin he := ⟨_, rfl, he⟩
  untouched hr := Or.inl hr.1
  reached := by simp [start, MatchResult.new]
  priority := pricePriority_nil b o

theorem marketFront_matchCandidate (hb : b.Coherent) (hfresh : b.ordersById[o.orderId]? = none)
    (htype : o.orderType = .market) (hs : s.book.Coherent) (h : MarketFront b o s)
    (hr : 0 < s.remainingQty) (hc : (s.book.levels o.side.opposite).Holds c.priceKey c)
    (hbest : BestKey o.side s.book c.priceKey) :
    MarketFront b o (matchCandidate env o.side price s c) := by
  obtain ⟨c₀, hid₀, hc₀⟩ := h.origin hc
  have hkey : c₀.priceKey = c.priceKey := (hb.indexed hc₀).2.2.2
  have helig : Eligible b o c₀ := ⟨hkey ▸ hc₀, by simp [htype]⟩
  have hx := trades_takerRecord (c := c) h.orderId hid₀ env
  refine ⟨h.orderId, ?_, ?_, ?_, ?_⟩
  · intro k e he
    obtain ⟨e₁, hid₁, he₁⟩ := holds_matchCandidate hs hc he
    obtain ⟨e₀, hid, he₀⟩ := h.origin he₁
    exact ⟨e₀, hid.trans hid₁, he₀⟩
  · intro r her
    rcases h.untouched her with hheld | hwhole | hdone
    · by_cases hid : c.orderId = r.orderId
      · have hcr : c = r := by
          have hci := (hs.indexed hc).1
          rw [hid, (hs.indexed hheld).1] at hci
          exact (Option.some.inj hci).symm
        subst r
        exact Or.inr (tradedWhole_or_done o.side)
      · exact Or.inl ((holds_matchCandidate_of_ne hs hid).mpr hheld)
    · exact Or.inr (Or.inl (hwhole.append _))
    · exact absurd hr (not_lt.mpr hdone)
  · intro e he r her ht
    rw [matchCandidate_executions] at he
    rcases List.mem_append.mp he with he | he
    · exact bestKey_matchCandidate hs hc (h.reached e he r her ht)
    · rw [List.mem_singleton.mp he] at ht
      rw [trades_unique hb hfresh her helig ht (hx _ _ _), hkey]
      exact bestKey_matchCandidate hs hc hbest
  · rw [matchCandidate_executions]
    apply h.priority.append hb hfresh helig (hx _ _ _)
    · intro e he r her ht
      rw [hkey]
      exact h.reached e he r her ht c.priceKey c hc
    · intro r her hlt
      rw [hkey] at hlt
      rcases h.untouched her with hheld | hwhole | hdone
      · exact absurd hlt (hbest r.priceKey r hheld)
      · exact hwhole
      · exact absurd hr (not_lt.mpr hdone)

/-- A pass over candidates in best-first order: what is not in the rest of the list was traded
whole, and no candidate of the rest is better than a traded one. -/
theorem priority_matchCandidates (hb : b.Coherent) (hfresh : b.ordersById[o.orderId]? = none)
    {q : List Order} (hid : s.order.orderId = o.orderId) (hq : ∀ c ∈ q, Eligible b o c)
    (hsorted : q.Pairwise (fun c c' => ¬ Better o.side c'.priceKey c.priceKey))
    (hcover : ∀ r, Eligible b o r → r ∈ q ∨ TradedWhole s.result.executions r ∨ s.remainingQty ≤ 0)
    (hprev : ∀ e ∈ s.result.executions, ∀ r, Eligible b o r → Trades o e r →
      ∀ c ∈ q, ¬ Better o.side c.priceKey r.priceKey)
    (h : PricePriority b o s.result.executions) :
    PricePriority b o (matchCandidates env o.side s q).result.executions := by
  induction q generalizing s with
  | nil => exact h
  | cons c q ih =>
      rw [matchCandidates]
      split_ifs with hstop
      · exact h
      · rw [not_or, not_le] at hstop
        obtain ⟨hhead, hsorted'⟩ := List.pairwise_cons.mp hsorted
        have hc := hq c List.mem_cons_self
        have hx := trades_takerRecord (c := c) hid rfl env
        have hid' : (matchCandidate env o.side (c.price.getD 0) s c).order.orderId = o.orderId :=
          hid
        apply ih hid' (fun e he => hq e (List.mem_cons_of_mem _ he)) hsorted'
        · intro r hr
          rcases hcover r hr with hmem | hwhole | hdone
          · rcases List.mem_cons.mp hmem with rfl | hmem
            · exact Or.inr (tradedWhole_or_done o.side)
            · exact Or.inl hmem
          · exact Or.inr (Or.inl (hwhole.append _))
          · exact absurd hstop.1 (not_lt.mpr hdone)
        · intro e he r hr ht d hd
          rw [matchCandidate_executions] at he
          rcases List.mem_append.mp he with he | he
          · exact hprev e he r hr ht d (List.mem_cons_of_mem _ hd)
          · rw [List.mem_singleton.mp he] at ht
            rw [trades_unique hb hfresh hr hc ht (hx _ _ _)]
            exact hhead d hd
        · rw [matchCandidate_executions]
          apply h.append hb hfresh hc (hx _ _ _)
          · exact fun e he r hr ht => hprev e he r hr ht c List.mem_cons_self
          · intro r hr hlt
            rcases hcover r hr with hmem | hwhole | hdone
            · rcases List.mem_cons.mp hmem with rfl | hmem
              · exact absurd hlt (better_irrefl _ _)
              · exact absurd hlt (hhead r hmem)
            · exact hwhole
            · exact absurd hstop.1 (not_lt.mpr hdone)

theorem matchCandidates_executions_extend (env : Env) (taker : OrderSide) (q : List Order)
    (s : MatchState) :
    ∃ l, (matchCandidates env taker s q).result.executions = s.result.executions ++ l := by
  induction q generalizing s with
  | nil => exact ⟨[], (List.append_nil _).symm⟩
  | cons c q ih =>
      rw [matchCandidates]
      split_ifs with hstop
      · exact ⟨[], (List.append_nil _).symm⟩
      · obtain ⟨l, hl⟩ := ih (matchCandidate env taker (c.price.getD 0) s c)
        rw [matchCandidate_executions, List.append_assoc] at hl
        exact ⟨_, hl⟩

end Loops

section Calls

variable {env : Env} {b : OrderBook} {o : Order}

theorem mem_limitCandidates_iff_eligible (hb : b.Coherent) (ht : o.orderType = .limit) {p : ℚ}
    (hp : o.price = some p) {r : Order} :
    r ∈ limitCandidates b o.side p ↔ Eligible b o r := by
  have hkey : o.priceKey = asI64 (p * 100) := by simp only [Order.priceKey, hp, Option.getD_some]
  rw [mem_limitCandidates hb, Eligible, hkey]
  simp [ht]

theorem pairwise_limitCandidates (hb : b.Coherent) (p : ℚ) :
    (limitCandidates b o.side p).Pairwise (fun c c' => c.priceKey ≤ c'.priceKey) := by
  obtain ⟨l, hl, hcand⟩ := limitCandidates_traversal b o.side p
  rw [hcand]
  exact hb.pairwise_priceKey hl

/-- The condition on the book and the incoming order: a limit sell order with quantity left has
its eligible buy orders on one price level. -/
def SellsIntoOneLevel (b : OrderBook) (o : Order) : Prop :=
  o.orderType = .limit → o.side = .sell → 0 < o.remainingQuantity → ∀ p, o.price = some p →
    ∀ r r', Eligible b o r → Eligible b o r' → r.priceKey = r'.priceKey

theorem priority_limit (hb : b.Coherent) (hfresh : b.ordersById[o.orderId]? = none)
    (ht : o.orderType = .limit) {p : ℚ} (hp : o.price = some p) (h : SellsIntoOneLevel b o) :
    PricePriority b o
      (matchCandidates env o.side (start b o) (limitCandidates b o.side p)).result.executions := by
  by_cases hr : 0 < o.remainingQuantity
  · have helig : ∀ r, r ∈ limitCandidates b o.side p ↔ Eligible b o r :=
      fun r => mem_limitCandidates_iff_eligible hb ht hp
    apply priority_matchCandidates hb hfresh rfl (fun c hc => (helig c).mp hc)
    · apply (pairwise_limitCandidates hb p).imp_of_mem
      intro c c' hc hc' hle
      cases hs : o.side with
      | buy => exact not_lt.mpr hle
      | sell =>
          rw [h ht hs hr p hp c c' ((helig c).mp hc) ((helig c').mp hc')]
          exact better_irrefl _ _
    · exact fun r hr => Or.inl ((helig r).mpr hr)
    · simp [start, MatchResult.new]
    · exact pricePriority_nil b o
  · cases hq : limitCandidates b o.side p with
    | nil => exact pricePriority_nil b o
    | cons c q =>
        have hdone : (start b o).remainingQty ≤ 0 := not_lt.mp hr
        rw [matchCandidates, if_pos (Or.inl hdone)]
        exact pricePriority_nil b o

/-- The first trade of a limit sell order is with the lowest eligible level, so priority leaves
no room for a second one. -/
theorem one_level_of_priority (hb : b.Coherent) (hact : o.isActive = true)
    (ht : o.orderType = .limit) (hs : o.side = .sell) (hr : 0 < o.remainingQuantity) {p : ℚ}
    (hp : o.price = some p)
    (h : PricePriority b o
      (matchCandidates env o.side (start b o) (limitCandidates b o.side p)).result.executions)
    {r r' : Order} (her : Eligible b o r) (her' : Eligible b o r') :
    r.priceKey = r'.priceKey := by
  have helig : ∀ r, r ∈ limitCandidates b o.side p ↔ Eligible b o r :=
    fun r => mem_limitCandidates_iff_eligible hb ht hp
  have hsorted := pairwise_limitCandidates (o := o) hb p
  cases hq : limitCandidates b o.side p with
  | nil =>
      have hmem := (helig r).mpr her
      simp [hq] at hmem
  | cons c q =>
      rw [hq, matchCandidates, if_neg (by simp [start, hr, hact])] at h
      obtain ⟨l, hl⟩ := matchCandidates_executions_extend env o.side q
        (matchCandidate env o.side (c.price.getD 0) (start b o) c)
      rw [matchCandidate_executions] at hl
      have hc : Eligible b o c := (helig c).mp (by simp [hq])
      have hkey : ∀ r, Eligible b o r → r.priceKey = c.priceKey := by
        intro r hr
        have hmem := (helig r).mpr hr
        rw [hq] at hmem hsorted
        apply le_antisymm
        · by_contra hlt
          have hbetter : Better o.side r.priceKey c.priceKey := by
            rw [hs]
            exact not_le.mp hlt
          have hx := trades_takerRecord (s := start b o) (o := o) (c := c) rfl rfl env
          obtain ⟨e, he, _⟩ := h.better_first [] _ l hl c r hc (hx _ _ _) hr hbetter
          simp at he
        · rcases List.mem_cons.mp hmem with rfl | hmem
          · exact le_rfl
          · exact (List.pairwise_cons.mp hsorted).1 r hmem
      rw [hkey r her, hkey r' her']

/-- `match_order` respects price priority exactly when it does not sell a limit order into two
levels, for every number of market rounds. -/
theorem price_priority_iff (fuel : ℕ) (env : Env) (b : OrderBook) (o : Order) (hb : b.Coherent)
    (hfresh : b.ordersById[o.orderId]? = none) (hact : o.isActive = true) :
    PricePriority b o (matchOrderWith fuel env b o).result.executions ↔
      SellsIntoOneLevel b o := by
  rw [matchOrderWith_executions fuel env b hact]
  rcases matchByType_cases fuel env b o with ⟨ht, he⟩ | ⟨p, ht, hp, he⟩ | ⟨hm, hnone, he⟩
  · rw [he]
    constructor
    · intro _ hl
      rw [ht] at hl
      cases hl
    · intro _
      refine (market_induction fuel ?_ hb (marketFront_start b o)).2.priority
      intro s c hs h hr _ hc hbest
      exact marketFront_matchCandidate hb hfresh ht hs h hr hc hbest
  · rw [he]
    constructor
    · intro h _ hs hr p' hp' r r' her her'
      exact one_level_of_priority hb hact ht hs hr hp h her her'
    · exact priority_limit hb hfresh ht hp
  · rw [he]
    constructor
    · intro _ hl _ _ p hp
      rw [hnone hl] at hp
      cases hp
    · intro _
      exact pricePriority_nil b o

/-- Two buy orders, at 100 and at 110. -/
def twoBids : OrderBook :=
  let bid (id : String) (price : ℚ) :=
    Order.fromRequest "" 0 ⟨some id, "AAPL", .buy, some price, 5, "acc", .limit⟩
  (((OrderBook.new "AAPL").addOrder (bid "b1" 100)).1.addOrder (bid "b2" 110)).1

theorem sound_twoBids : Sound twoBids := by
  apply Sound.addOrder
  · exact (Sound.new "AAPL").addOrder (by decide +kernel) (by decide +kernel)
  · decide +kernel
  · decide +kernel

/-- A limit sell order at 90 for 5 takes the bid at 100 and leaves the one at 110. -/
theorem worst_bid_first : ¬ ∀ (env : Env) (b : OrderBook) (o : Order), b.Coherent →
    (∀ (id : String) (r : Order), b.ordersById[id]? = some r → 0 < r.remainingQuantity) →
    b.ordersById[o.orderId]? = none → o.isActive = true →
    (o.orderType = .market ∨ o.orderType = .limit) →
    PricePriority b o (matchOrder env b o).result.executions := by
  intro hall
  let env : Env := ⟨fun n => n, fun n => toString n⟩
  let bid (id : String) (price : ℚ) : Order :=
    Order.fromRequest "" 0 ⟨some id, "AAPL", .buy, some price, 5, "acc", .limit⟩
  let o : Order := Order.fromRequest "" 0 ⟨some "s1", "AAPL", .sell, some 90, 5, "acc", .limit⟩
  have h := hall env twoBids o sound_twoBids.coherent
    (fun _ _ hr => (sound_twoBids.resting hr).remaining_pos) (by decide +kernel)
    (by decide +kernel) (Or.inr rfl)
  have helig : ∀ r, (r = bid "b1" 100 ∨ r = bid "b2" 110) → Eligible twoBids o r := by
    rintro r (rfl | rfl)
    · exact ⟨⟨[bid "b1" 100], by decide +kernel, List.mem_singleton_self _⟩,
        fun _ => not_lt.mpr (by decide +kernel)⟩
    · exact ⟨⟨[bid "b2" 110], by decide +kernel, List.mem_singleton_self _⟩,
        fun _ => not_lt.mpr (by decide +kernel)⟩
  have hfirst : (matchOrder env twoBids o).result.executions =
      [] ++ takerRecord env 0 .sell o (bid "b1" 100) 100 5 :: [] := by decide +kernel
  obtain ⟨e, he, _⟩ := h.better_first [] _ [] hfirst (bid "b1" 100) (bid "b2" 110)
    (helig _ (Or.inl rfl))
    (trades_takerRecord (s := start twoBids o) (o := o) rfl rfl env 0 100 5)
    (helig _ (Or.inr rfl)) (show (bid "b1" 100).priceKey < (bid "b2" 110).priceKey by
      decide +kernel)
  simp at he

/-- A market sell order meets the same two bids in price order. -/
theorem market_sell_best_first :
    let env : Env := ⟨fun n => n, fun n => toString n⟩
    let o := Order.fromRequest "" 0 ⟨some "s1", "AAPL", .sell, none, 8, "acc", .market⟩
    (matchOrderWith 3 env twoBids o).result.executions.map Execution.orderId = ["b2", "b1"] ∧
      PricePriority twoBids o (matchOrderWith 3 env twoBids o).result.executions := by
  intro env o
  refine ⟨by decide +kernel, ?_⟩
  apply (price_priority_iff 3 env twoBids o sound_twoBids.coherent (by decide +kernel)
    (by decide +kernel)).mpr
  intro hlimit
  cases hlimit

end Calls

end OrderMatcher

end ActixPura
