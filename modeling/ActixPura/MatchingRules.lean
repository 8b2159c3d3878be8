import ActixPura.BookCoherence
import ActixPura.OrderMatcher

/-!
# Induction rules for the matching loops

What one match does to the book is stated once: only the entry of the matched id can change, and
what comes back under it is the filled copy in the same level. From this the loops get their
induction rules. A property that every match of a resting candidate keeps holds when the loop
is left, and for market orders each candidate may be assumed to have the best key in the book.
-/

namespace ActixPura

namespace OrderMatcher

section Filling

variable (o : Order) (qty : ℚ) (now : DateTime)

@[simp] theorem fillResting_orderId : (fillResting o qty now).orderId = o.orderId := by
  unfold fillResting; dsimp only; split_ifs <;> rfl

@[simp] theorem fillResting_symbol : (fillResting o qty now).symbol = o.symbol := by
  unfold fillResting; dsimp only; split_ifs <;> rfl

@[simp] theorem fillResting_side : (fillResting o qty now).side = o.side := by
  unfold fillResting; dsimp only; split_ifs <;> rfl

@[simp] theorem fillResting_price : (fillResting o qty now).price = o.price := by
  unfold fillResting; dsimp only; split_ifs <;> rfl

@[simp] theorem fillResting_quantity : (fillResting o qty now).quantity = o.quantity := by
  unfold fillResting; dsimp only; split_ifs <;> rfl

@[simp] theorem fillResting_filledQuantity :
    (fillResting o qty now).filledQuantity = o.filledQuantity + (o.filledQuantity + qty) := by
  unfold fillResting; dsimp only; split_ifs <;> rfl

@[simp] theorem fillResting_priceKey : (fillResting o qty now).priceKey = o.priceKey := by
  simp [Order.priceKey]

@[simp] theorem fillResting_hasPrice : (fillResting o qty now).hasPrice = o.hasPrice := by
  simp [Order.hasPrice]

theorem fillResting_remainingQuantity : (fillResting o qty now).remainingQuantity =
    o.quantity - (o.filledQuantity + (o.filledQuantity + qty)) := by
  simp [Order.remainingQuantity]

end Filling

section Reinsertion

variable {b : OrderBook} {u : Order}

theorem reinsert_cases (b : OrderBook) (u : Order) :
    reinsert b u = b ∨ (0 < u.remainingQuantity ∧ reinsert b u = (b.addOrder u).1) := by
  unfold reinsert
  split_ifs with h
  · exact Or.inl rfl
  · exact Or.inr ⟨not_le.mp h, rfl⟩

@[simp] theorem reinsert_symbol (b : OrderBook) (u : Order) :
    (reinsert b u).symbol = b.symbol := by
  unfold reinsert
  split_ifs <;> simp

theorem coherent_reinsert (h : b.Coherent) (hfresh : b.ordersById[u.orderId]? = none) :
    (reinsert b u).Coherent := by
  rcases reinsert_cases b u with he | ⟨_, he⟩
  · rwa [he]
  · rw [he]
    exact h.addOrder hfresh

theorem reinsert_lookup_of_ne {id : String} (h : u.orderId ≠ id) :
    (reinsert b u).ordersById[id]? = b.ordersById[id]? := by
  rcases reinsert_cases b u with he | ⟨_, he⟩
  · rw [he]
  · rw [he]
    cases ha : b.accepts u with
    | false => rw [OrderBook.addOrder_rejected ha]
    | true => rw [OrderBook.addOrder_lookup ha, if_neg h]

/-- The index after a reinsertion: the reinserted order under its id, or what was there. -/
theorem reinsert_lookup {id : String} {e : Order}
    (h : (reinsert b u).ordersById[id]? = some e) :
    (u.orderId = id ∧ e = u ∧ 0 < u.remainingQuantity) ∨ b.ordersById[id]? = some e := by
  rcases reinsert_cases b u with he | ⟨hr, he⟩
  · rw [he] at h
    exact Or.inr h
  · rw [he] at h
    cases ha : b.accepts u with
    | false =>
        rw [OrderBook.addOrder_rejected ha] at h
        exact Or.inr h
    | true =>
        rw [OrderBook.addOrder_lookup ha] at h
        split_ifs at h with hid
        · exact Or.inl ⟨hid, (Option.some.inj h).symm, hr⟩
        · exact Or.inr h

end Reinsertion

@[simp] theorem takerRecord_quantity (env : Env) (n : ℕ) (taker : OrderSide)
    (order resting : Order) (price qty : ℚ) :
    (takerRecord env n taker order resting price qty).quantity = qty := by
  cases taker <;> rfl

theorem takerRecord_names (env : Env) (n : ℕ) (taker : OrderSide) (order resting : Order)
    (price qty : ℚ) (id : String) :
    (takerRecord env n taker order resting price qty).names id = true ↔
      order.orderId = id ∨ resting.orderId = id := by
  cases taker with
  | buy => simp [takerRecord, createExecutionRecord, Execution.names]
  | sell => simp [takerRecord, createExecutionRecord, Execution.names, or_comm]

section Candidate

variable {env : Env} {taker : OrderSide} {price : ℚ} {s : MatchState} {c : Order}

/-- The quantity of the match of the state's order with `c`. -/
def matchQuantity (s : MatchState) (c : Order) : ℚ := min s.remainingQty c.remainingQuantity

/-- The filled copy of `c` that the match reports. -/
def filledCopy (env : Env) (s : MatchState) (c : Order) : Order :=
  fillResting c (matchQuantity s c) (env.now s.result.executions.length)

theorem matchCandidate_book : (matchCandidate env taker price s c).book =
    reinsert (s.book.removeOrder c.orderId).1 (filledCopy env s c) := rfl

theorem matchCandidate_remainingQty : (matchCandidate env taker price s c).remainingQty =
    s.remainingQty - matchQuantity s c := rfl

theorem matchCandidate_executions : (matchCandidate env taker price s c).result.executions =
    s.result.executions ++ [takerRecord env s.result.executions.length taker s.order c price
      (matchQuantity s c)] := rfl

theorem matchCandidate_updatedOrders :
    (matchCandidate env taker price s c).result.updatedOrders =
      s.result.updatedOrders ++ [filledCopy env s c] := rfl

theorem matchCandidate_filledQuantity :
    (matchCandidate env taker price s c).order.filledQuantity =
      s.order.filledQuantity + (s.order.filledQuantity + matchQuantity s c) := rfl

theorem matchCandidate_status : (matchCandidate env taker price s c).order.status =
    if (matchCandidate env taker price s c).remainingQty ≤ 0 then .filled
    else .partiallyFilled := rfl

@[simp] theorem matchCandidate_orderId :
    (matchCandidate env taker price s c).order.orderId = s.order.orderId := rfl
@[simp] theorem matchCandidate_orderType :
    (matchCandidate env taker price s c).order.orderType = s.order.orderType := rfl
@[simp] theorem matchCandidate_side :
    (matchCandidate env taker price s c).order.side = s.order.side := rfl
@[simp] theorem matchCandidate_price :
    (matchCandidate env taker price s c).order.price = s.order.price := rfl
@[simp] theorem matchCandidate_quantity :
    (matchCandidate env taker price s c).order.quantity = s.order.quantity := rfl
@[simp] theorem matchCandidate_symbol :
    (matchCandidate env taker price s c).order.symbol = s.order.symbol := rfl

theorem matchCandidate_isActive : (matchCandidate env taker price s c).order.isActive = true ↔
    0 < (matchCandidate env taker price s c).remainingQty := by
  rw [Order.isActive, matchCandidate_status]
  split_ifs with h
  · simpa using h
  · simpa using h

@[simp] theorem matchCandidate_bookSymbol :
    (matchCandidate env taker price s c).book.symbol = s.book.symbol := by
  simp [matchCandidate_book]

theorem removed_lookup (b : OrderBook) (id : String) :
    (b.removeOrder id).1.ordersById[id]? = none := by
  rw [OrderBook.removeOrder_lookup, if_pos rfl]

theorem coherent_matchCandidate (h : s.book.Coherent) :
    (matchCandidate env taker price s c).book.Coherent :=
  coherent_reinsert (h.removeOrder c.orderId)
    (by simpa [filledCopy] using removed_lookup s.book c.orderId)

theorem matchCandidate_lookup_of_ne {id : String} (h : c.orderId ≠ id) :
    (matchCandidate env taker price s c).book.ordersById[id]? = s.book.ordersById[id]? := by
  rw [matchCandidate_book, reinsert_lookup_of_ne (by simpa [filledCopy] using h),
    OrderBook.removeOrder_lookup, if_neg h]

/-- After a match the index holds old entries of other ids and at most the filled copy. -/
theorem matchCandidate_lookup {id : String} {e : Order}
    (h : (matchCandidate env taker price s c).book.ordersById[id]? = some e) :
    (c.orderId ≠ id ∧ s.book.ordersById[id]? = some e) ∨
      (c.orderId = id ∧ e = filledCopy env s c ∧ 0 < e.remainingQuantity) := by
  rw [matchCandidate_book] at h
  rcases reinsert_lookup h with ⟨hid, rfl, hr⟩ | h
  · exact Or.inr ⟨by simpa [filledCopy] using hid, rfl, hr⟩
  · rw [OrderBook.removeOrder_lookup] at h
    split_ifs at h with hid
    exact Or.inl ⟨hid, h⟩

theorem holds_matchCandidate_of_ne (h : s.book.Coherent) {side : OrderSide} {k : ℤ} {e : Order}
    (hne : c.orderId ≠ e.orderId) :
    ((matchCandidate env taker price s c).book.levels side).Holds k e ↔
      (s.book.levels side).Holds k e := by
  rw [(coherent_matchCandidate h).holds_iff, h.holds_iff, matchCandidate_lookup_of_ne hne]

/-- A match opens no new level: what a level holds after it waited there before, or is the
filled copy of the candidate that waited there. -/
theorem holds_matchCandidate (h : s.book.Coherent) (hc : (s.book.levels taker).Holds c.priceKey c)
    {side side' : OrderSide} {k : ℤ} {e : Order}
    (he : ((matchCandidate env side' price s c).book.levels side).Holds k e) :
    ∃ e₀, e₀.orderId = e.orderId ∧ (s.book.levels side).Holds k e₀ := by
  obtain ⟨hi, hs, hp, hk⟩ := (coherent_matchCandidate h).indexed he
  rcases matchCandidate_lookup hi with ⟨hne, _⟩ | ⟨hid, heq, _⟩
  · exact ⟨e, rfl, (holds_matchCandidate_of_ne h hne).mp he⟩
  · subst e
    refine ⟨c, hid, ?_⟩
    simp only [filledCopy, fillResting_side, fillResting_priceKey] at hs hk
    rw [← hk, ← hs, (h.indexed hc).2.1]
    exact hc

end Candidate

section Rules

variable {env : Env} {taker : OrderSide}

/-- `k` is a strictly better price level than `k'` for an incoming order of side `taker`. -/
def Better (taker : OrderSide) (k k' : ℤ) : Prop :=
  match taker with
  | .buy => k < k'
  | .sell => k' < k

theorem better_irrefl (taker : OrderSide) (k : ℤ) : ¬ Better taker k k := by
  cases taker <;> simp [Better]

/-- No waiting opposite order has a better key. -/
def BestKey (taker : OrderSide) (b : OrderBook) (k : ℤ) : Prop :=
  ∀ k' e, (b.levels taker.opposite).Holds k' e → ¬ Better taker k' k

theorem bestKey_matchCandidate {price : ℚ} {s : MatchState} {c : Order} {k : ℤ}
    (h : s.book.Coherent) (hc : (s.book.levels taker.opposite).Holds c.priceKey c)
    (hk : BestKey taker s.book k) :
    BestKey taker (matchCandidate env taker price s c).book k := by
  intro k' e he
  obtain ⟨e₀, _, he₀⟩ := holds_matchCandidate h hc he
  exact hk k' e₀ he₀

variable {P : MatchState → Prop}

theorem matchLevel_induction {price : ℚ} {k : ℤ}
    (hstep : ∀ (s : MatchState) (c : Order), s.book.Coherent → P s → 0 < s.remainingQty →
      s.order.isActive = true → c.priceKey = k →
      (s.book.levels taker.opposite).Holds c.priceKey c → BestKey taker s.book c.priceKey →
      P (matchCandidate env taker price s c))
    (q : List Order) (s : MatchState) (hb : s.book.Coherent) (hP : P s)
    (hr : 0 < s.remainingQty) (ha : s.order.isActive = true) (hk : BestKey taker s.book k)
    (hq : ∀ c ∈ q, c.priceKey = k ∧ (s.book.levels taker.opposite).Holds k c)
    (hnd : (q.map Order.orderId).Nodup) :
    (matchLevel env taker price s q).book.Coherent ∧ P (matchLevel env taker price s q) := by
  induction q generalizing s with
  | nil => exact ⟨hb, hP⟩
  | cons c q ih =>
      obtain ⟨hck, hc⟩ := hq c (by simp)
      have hc' : (s.book.levels taker.opposite).Holds c.priceKey c := by rwa [hck]
      have hb' : (matchCandidate env taker price s c).book.Coherent := coherent_matchCandidate hb
      have hP' := hstep s c hb hP hr ha hck hc' (by rwa [hck])
      rw [matchLevel]
      split_ifs with hle
      · exact ⟨hb', hP'⟩
      · obtain ⟨hnot, hnd'⟩ := List.nodup_cons.mp hnd
        apply ih _ hb' hP' (not_le.mp hle) (matchCandidate_isActive.mpr (not_le.mp hle))
          (bestKey_matchCandidate hb hc' hk) _ hnd'
        intro e he
        obtain ⟨hek, heh⟩ := hq e (by simp [he])
        refine ⟨hek, (holds_matchCandidate_of_ne hb ?_).mpr heh⟩
        exact fun heq => hnot (heq ▸ List.mem_map_of_mem he)

theorem matchCandidates_induction
    (hstep : ∀ (s : MatchState) (c : Order), s.book.Coherent → P s → 0 < s.remainingQty →
      s.order.isActive = true → (s.book.levels taker.opposite).Holds c.priceKey c →
      P (matchCandidate env taker (c.price.getD 0) s c))
    (q : List Order) (s : MatchState) (hb : s.book.Coherent) (hP : P s)
    (hq : ∀ c ∈ q, (s.book.levels taker.opposite).Holds c.priceKey c)
    (hnd : (q.map Order.orderId).Nodup) :
    (matchCandidates env taker s q).book.Coherent ∧ P (matchCandidates env taker s q) := by
  induction q generalizing s with
  | nil => exact ⟨hb, hP⟩
  | cons c q ih =>
      rw [matchCandidates]
      split_ifs with hstop
      · exact ⟨hb, hP⟩
      · rw [not_or, not_le, Bool.not_eq_false] at hstop
        have hc := hq c (by simp)
        obtain ⟨hnot, hnd'⟩ := List.nodup_cons.mp hnd
        apply ih _ (coherent_matchCandidate hb) (hstep s c hb hP hstop.1 hstop.2 hc) _ hnd'
        intro e he
        apply (holds_matchCandidate_of_ne hb _).mpr (hq e (by simp [he]))
        exact fun heq => hnot (heq ▸ List.mem_map_of_mem he)

/-- The best opposite price names a level of the book, and the orders found at that price are
its queue. -/
theorem bestOppositePrice_spec (taker : OrderSide) {b : OrderBook} (h : b.Coherent) {price : ℚ}
    (hp : bestOppositePrice b taker = some price) :
    ∃ (k : ℤ) (q : List Order), (b.levels taker.opposite)[k]? = some q ∧ price = k / 100 ∧
      oppositeOrdersAtPrice b taker price = q ∧ BestKey taker b k := by
  have hat : ∀ (side : OrderSide) (k : ℤ) (q : List Order), (b.levels side)[k]? = some q →
      OrderBook.ordersAtPrice (b.levels side) ((k : ℚ) / 100) = q := by
    intro side k q hq
    obtain ⟨o, ho⟩ := List.exists_mem_of_ne_nil q (h.noEmpty side k q hq)
    have hk : asI64 ((k : ℚ) / 100 * 100) = k := by
      rw [div_mul_cancel₀ _ (by norm_num)]
      apply asI64_intCast
      rw [← (h.indexed ⟨q, hq, ho⟩).2.2.2]
      exact asI64_bounds _
    rw [OrderBook.ordersAtPrice, hk, hq]
    rfl
  cases taker with
  | buy =>
      obtain ⟨k, hk, rfl⟩ := Option.map_eq_some_iff.mp hp
      obtain ⟨⟨q, hq⟩, hmin⟩ := QueueMap.firstKey_eq_some hk
      refine ⟨k, q, hq, rfl, hat .sell k q hq, ?_⟩
      rintro k' e ⟨q', hq', _⟩
      exact not_lt.mpr (hmin k' q' hq')
  | sell =>
      obtain ⟨k, hk, rfl⟩ := Option.map_eq_some_iff.mp hp
      obtain ⟨⟨q, hq⟩, hmax⟩ := QueueMap.lastKey_eq_some hk
      refine ⟨k, q, hq, rfl, hat .buy k q hq, ?_⟩
      rintro k' e ⟨q', hq', _⟩
      exact not_lt.mpr (hmax k' q' hq')

theorem firstKey_of_bestKey {b : OrderBook} (h : b.Coherent) {k : ℤ} {q : List Order}
    (hq : b.sellOrders[k]? = some q) (hk : BestKey .buy b k) : b.sellOrders.firstKey = some k := by
  cases hfirst : b.sellOrders.firstKey with
  | none =>
      rw [QueueMap.firstKey_eq_none.mp hfirst k] at hq
      cases hq
  | some k₀ =>
      obtain ⟨⟨q₀, hq₀⟩, hmin⟩ := QueueMap.firstKey_eq_some hfirst
      obtain ⟨c₀, hc₀⟩ := List.exists_mem_of_ne_nil q₀ (h.noEmpty .sell k₀ q₀ hq₀)
      rw [le_antisymm (hmin k q hq) (not_lt.mp (hk k₀ c₀ ⟨q₀, hq₀, hc₀⟩))]

theorem lastKey_of_bestKey {b : OrderBook} (h : b.Coherent) {k : ℤ} {q : List Order}
    (hq : b.buyOrders[k]? = some q) (hk : BestKey .sell b k) : b.buyOrders.lastKey = some k := by
  cases hlast : b.buyOrders.lastKey with
  | none =>
      rw [QueueMap.lastKey_eq_none.mp hlast k] at hq
      cases hq
  | some k₀ =>
      obtain ⟨⟨q₀, hq₀⟩, hmax⟩ := QueueMap.lastKey_eq_some hlast
      obtain ⟨c₀, hc₀⟩ := List.exists_mem_of_ne_nil q₀ (h.noEmpty .buy k₀ q₀ hq₀)
      rw [le_antisymm (not_lt.mp (hk k₀ c₀ ⟨q₀, hq₀, hc₀⟩)) (hmax k q hq)]

theorem bestOppositePrice_none {b : OrderBook} (hp : bestOppositePrice b taker = none) :
    ∀ k : ℤ, (b.levels taker.opposite)[k]? = none := by
  cases taker with
  | buy => exact QueueMap.firstKey_eq_none.mp (Option.map_eq_none_iff.mp hp)
  | sell => exact QueueMap.lastKey_eq_none.mp (Option.map_eq_none_iff.mp hp)

theorem marketRound_some {s s' : MatchState} (h : s.book.Coherent)
    (hs : marketRound env taker s = some s') :
    0 < s.remainingQty ∧ s.order.isActive = true ∧ ∃ (k : ℤ) (q : List Order), q ≠ [] ∧
      (s.book.levels taker.opposite)[k]? = some q ∧ BestKey taker s.book k ∧
      s' = matchLevel env taker (k / 100) s q := by
  unfold marketRound at hs
  split_ifs at hs with hg
  cases hp : bestOppositePrice s.book taker with
  | none => simp [hp] at hs
  | some price =>
      obtain ⟨k, q, hq, rfl, hat, hbest⟩ := bestOppositePrice_spec taker h hp
      cases q with
      | nil => exact absurd rfl (h.noEmpty _ k [] hq)
      | cons c q =>
          simp only [hp, hat, Option.some.injEq] at hs
          exact ⟨hg.1, hg.2, k, c :: q, List.cons_ne_nil c q, hq, hbest, hs.symm⟩

theorem marketRound_none {s : MatchState} (h : s.book.Coherent)
    (hs : marketRound env taker s = none) :
    s.remainingQty ≤ 0 ∨ s.order.isActive = false ∨
      ∀ k : ℤ, (s.book.levels taker.opposite)[k]? = none := by
  unfold marketRound at hs
  split_ifs at hs with hg
  · cases hp : bestOppositePrice s.book taker with
    | none => exact Or.inr (Or.inr (bestOppositePrice_none hp))
    | some price =>
        obtain ⟨k, q, hq, _, hat, _⟩ := bestOppositePrice_spec taker h hp
        cases q with
        | nil => exact absurd rfl (h.noEmpty _ k [] hq)
        | cons c q => simp [hp, hat] at hs
  · rw [not_and_or, not_lt, Bool.not_eq_true] at hg
    exact hg.elim Or.inl (fun ha => Or.inr (Or.inl ha))

/-- The candidates of a level at the moment a round takes its snapshot. -/
theorem level_candidates {b : OrderBook} (h : b.Coherent) {side : OrderSide} {k : ℤ}
    {q : List Order} (hq : (b.levels side)[k]? = some q) :
    ∀ c ∈ q, c.priceKey = k ∧ (b.levels side).Holds k c := by
  intro c hc
  exact ⟨(h.indexed ⟨q, hq, hc⟩).2.2.2, q, hq, hc⟩

theorem market_induction (fuel : ℕ)
    (hstep : ∀ (s : MatchState) (c : Order), s.book.Coherent → P s → 0 < s.remainingQty →
      s.order.isActive = true → (s.book.levels taker.opposite).Holds c.priceKey c →
      BestKey taker s.book c.priceKey → P (matchCandidate env taker (c.priceKey / 100) s c))
    {s : MatchState} (hb : s.book.Coherent) (hP : P s) :
    (Runs.loop (marketRound env taker) fuel s).book.Coherent ∧
      P (Runs.loop (marketRound env taker) fuel s) := by
  apply Runs.loop_invariant (I := fun s => s.book.Coherent ∧ P s) _ fuel ⟨hb, hP⟩
  rintro s s' ⟨hb, hP⟩ hs
  obtain ⟨hr, ha, k, q, _, hq, hbest, rfl⟩ := marketRound_some hb hs
  refine matchLevel_induction ?_ q s hb hP hr ha hbest (level_candidates hb hq) (hb.nodup hq)
  intro s c hb hP hr ha hk hc hbest
  rw [← hk]
  exact hstep s c hb hP hr ha hc hbest

/-- The candidates of a limit order: a traversal of some levels of the opposite side. -/
def limitCandidates (b : OrderBook) (taker : OrderSide) (price : ℚ) : List Order :=
  match taker with
  | .buy => b.getMatchingSellOrders price
  | .sell => b.getMatchingBuyOrders price

theorem limitCandidates_traversal (b : OrderBook) (taker : OrderSide) (price : ℚ) :
    ∃ l : List (ℤ × List Order), l.Sublist (b.levels taker.opposite).toList ∧
      limitCandidates b taker price = l.flatMap Prod.snd := by
  cases taker with
  | buy => exact ⟨_, List.filter_sublist, rfl⟩
  | sell => exact ⟨_, List.filter_sublist, rfl⟩

theorem mem_limitCandidates {b : OrderBook} (h : b.Coherent) {price : ℚ} {c : Order} :
    c ∈ limitCandidates b taker price ↔
      (b.levels taker.opposite).Holds c.priceKey c ∧
        ¬ Better taker (asI64 (price * 100)) c.priceKey := by
  cases taker with
  | buy =>
      change c ∈ (b.levels .sell).atMost _ ↔ _
      rw [QueueMap.mem_atMost]
      constructor
      · rintro ⟨k, hk, hc⟩
        obtain ⟨_, _, _, rfl⟩ := h.indexed hc
        exact ⟨hc, not_lt.mpr hk⟩
      · rintro ⟨hc, hk⟩
        exact ⟨c.priceKey, not_lt.mp hk, hc⟩
  | sell =>
      change c ∈ (b.levels .buy).atLeast _ ↔ _
      rw [QueueMap.mem_atLeast]
      constructor
      · rintro ⟨k, hk, hc⟩
        obtain ⟨_, _, _, rfl⟩ := h.indexed hc
        exact ⟨hc, not_lt.mpr hk⟩
      · rintro ⟨hc, hk⟩
        exact ⟨c.priceKey, not_lt.mp hk, hc⟩

/-- `match_order` before the remainder is placed: a market loop, one pass over the limit
candidates, or nothing. -/
theorem matchByType_cases (fuel : ℕ) (env : Env) (b : OrderBook) (o : Order) :
    (o.orderType = .market ∧
      matchByType fuel env b o = Runs.loop (marketRound env o.side) fuel (start b o)) ∨
    (∃ p, o.orderType = .limit ∧ o.price = some p ∧
      matchByType fuel env b o =
        matchCandidates env o.side (start b o) (limitCandidates b o.side p)) ∨
    (o.orderType ≠ .market ∧ (o.orderType = .limit → o.price = none) ∧
      matchByType fuel env b o = start b o) := by
  unfold matchByType
  cases ht : o.orderType with
  | market =>
      cases hs : o.side with
      | buy => exact Or.inl ⟨rfl, rfl⟩
      | sell => exact Or.inl ⟨rfl, rfl⟩
  | limit =>
      cases hp : o.price with
      | none => cases hs : o.side <;> simp
      | some p =>
          refine Or.inr (Or.inl ⟨p, rfl, rfl, ?_⟩)
          cases hs : o.side with
          | buy => rfl
          | sell => rfl
  | stopLoss => simp
  | stopLimit => simp
  | immediateOrCancel => simp
  | fillOrKill => simp

/-- The price of a match of the incoming order `o` with `c`: the price of the level for a market
order, the waiting order's own price for a limit order. -/
def execPrice (o c : Order) : ℚ :=
  if o.orderType = .market then c.priceKey / 100 else c.price.getD 0

/-- The induction rule of `match_order`: what every match of a waiting candidate keeps holds
when the loops are left, for every fuel. -/
theorem matchByType_induction (fuel : ℕ) {b : OrderBook} {o : Order} (hb : b.Coherent)
    (hstart : P (start b o))
    (hstep : ∀ (s : MatchState) (c : Order), s.book.Coherent → P s →
      0 < s.remainingQty → s.order.isActive = true →
      (s.book.levels o.side.opposite).Holds c.priceKey c →
      P (matchCandidate env o.side (execPrice o c) s c)) :
    (matchByType fuel env b o).book.Coherent ∧ P (matchByType fuel env b o) := by
  rcases matchByType_cases fuel env b o with ⟨ht, he⟩ | ⟨p, ht, _, he⟩ | ⟨_, _, he⟩
  · rw [he]
    simp only [execPrice, ht, if_true] at hstep
    exact market_induction fuel (fun s c hc hP hr ha hh _ => hstep s c hc hP hr ha hh) hb hstart
  · rw [he]
    simp only [execPrice, ht, reduceCtorEq, if_false] at hstep
    obtain ⟨l, hl, hcand⟩ := limitCandidates_traversal b o.side p
    apply matchCandidates_induction hstep _ _ hb hstart
    · exact fun c hc => ((mem_limitCandidates hb).mp hc).1
    · rw [hcand]
      exact hb.nodup_traversal hl
  · rw [he]
    exact ⟨hb, hstart⟩

/-- The end of `match_order`: an inactive order is returned as it came, a limit order with
quantity left is added to the book, any other order with quantity left is cancelled and reported,
and an order without is left alone. -/
theorem matchOrderWith_cases (fuel : ℕ) (env : Env) (b : OrderBook) (o : Order) :
    (o.isActive = false ∧ matchOrderWith fuel env b o = ⟨b, o, .new⟩) ∨
    (o.isActive = true ∧
      ((matchByType fuel env b o).order.isActive = true ∧
        0 < (matchByType fuel env b o).order.remainingQuantity) ∧
      (matchByType fuel env b o).order.orderType = .limit ∧
      matchOrderWith fuel env b o =
        ⟨((matchByType fuel env b o).book.addOrder (matchByType fuel env b o).order).1,
          (matchByType fuel env b o).order, (matchByType fuel env b o).result⟩) ∨
    (o.isActive = true ∧ 0 < (matchByType fuel env b o).order.remainingQuantity ∧
      ∃ now, matchOrderWith fuel env b o =
        ⟨(matchByType fuel env b o).book,
          (matchByType fuel env b o).order.updateStatus .cancelled now,
          (matchByType fuel env b o).result.addUpdatedOrder
            ((matchByType fuel env b o).order.updateStatus .cancelled now)⟩) ∨
    (o.isActive = true ∧ matchOrderWith fuel env b o =
      ⟨(matchByType fuel env b o).book, (matchByType fuel env b o).order,
        (matchByType fuel env b o).result⟩) := by
  unfold matchOrderWith placeRemainder
  split_ifs with hact hopen hlim
  · exact Or.inr (Or.inl ⟨hact, hopen, hlim, rfl⟩)
  · exact Or.inr (Or.inr (Or.inl ⟨hact, hopen.2, _, rfl⟩))
  · exact Or.inr (Or.inr (Or.inr ⟨hact, rfl⟩))
  · exact Or.inl ⟨by simpa using hact, rfl⟩

/-- Only the matching loops make executions. -/
theorem matchOrderWith_executions (fuel : ℕ) (env : Env) (b : OrderBook) {o : Order}
    (hact : o.isActive = true) : (matchOrderWith fuel env b o).result.executions =
      (matchByType fuel env b o).result.executions := by
  rcases matchOrderWith_cases fuel env b o with
    ⟨hno, _⟩ | ⟨_, _, _, heq⟩ | ⟨_, _, _, heq⟩ | ⟨_, heq⟩
  · rw [hno] at hact
    cases hact
  · rw [heq]
  · rw [heq]
    rfl
  · rw [heq]

end Rules

end OrderMatcher

end ActixPura
