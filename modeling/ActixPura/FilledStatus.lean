import ActixPura.FillAccounting

/-!
# What a status says about the executions

Filled quantities may exceed what was executed, but they never fall short of it, and the status
`Filled` is set whenever an order was executed in full. `Tally` states both for all orders of a
book and for the last copy of each order that the engine showed, and every `match_order` call
keeps it.
-/

namespace ActixPura

open OrderBook OrderMatcher

namespace OrderMatcher

theorem remaining_pos_of_not_filled {o : Order} {qty : ℚ} {now : DateTime}
    (h : (fillResting o qty now).status ≠ .filled) :
    0 < (fillResting o qty now).remainingQuantity := by
  rw [fillResting_remainingQuantity]
  by_contra hle
  apply h
  have hdone : (o.updateFilledQuantity (o.filledQuantity + qty) now).remainingQuantity ≤ 0 := by
    simpa [Order.remainingQuantity] using hle
  simp [fillResting, hdone]

end OrderMatcher

/-- Executions `es` and shown copies `rs` against a book, where `Q` gives the quantity of each
order. -/
structure Tally (Q : String → ℚ) (es : List Execution) (rs : List Order) (b : OrderBook) :
    Prop where
  index : ∀ {id : String} {e : Order}, b.ordersById[id]? = some e →
    e.quantity = Q id ∧ executedQuantity id es ≤ e.filledQuantity
  shown : ∀ {id : String} {c : Order}, latestCopy rs id = some c → c.status ≠ .filled →
    0 < Q id → executedQuantity id es < Q id
  unseen : ∀ {id : String}, latestCopy rs id = none → executedQuantity id es = 0

/-- The tally while the loops match `o`, whose own copies are not shown yet. -/
structure RunningTally (Q : String → ℚ) (es : List Execution) (rs : List Order) (o : Order)
    (s : MatchState) : Prop where
  remaining : s.remainingQty + executedQuantity o.orderId (es ++ s.result.executions) =
    Q o.orderId
  filled : executedQuantity o.orderId (es ++ s.result.executions) ≤ s.order.filledQuantity
  status : s.order.status ≠ .filled → 0 < s.remainingQty ∨
    executedQuantity o.orderId (es ++ s.result.executions) = 0
  index : ∀ {id : String} {e : Order}, s.book.ordersById[id]? = some e →
    e.quantity = Q id ∧ executedQuantity id (es ++ s.result.executions) ≤ e.filledQuantity
  shown : ∀ {id : String} {c : Order}, id ≠ o.orderId →
    latestCopy (rs ++ s.result.updatedOrders) id = some c → c.status ≠ .filled → 0 < Q id →
    executedQuantity id (es ++ s.result.executions) < Q id
  unseen : ∀ {id : String}, id ≠ o.orderId →
    latestCopy (rs ++ s.result.updatedOrders) id = none →
    executedQuantity id (es ++ s.result.executions) = 0

namespace Tally

variable {env : Env} {Q : String → ℚ} {es : List Execution} {rs : List Order} {b : OrderBook}
  {o : Order}

theorem start (h : Tally Q es rs b) (hnew : executedQuantity o.orderId es = 0)
    (hfill : o.filledQuantity = 0) (hQ : o.quantity = Q o.orderId) :
    RunningTally Q es rs o (OrderMatcher.start b o) := by
  have hes : es ++ (OrderMatcher.start b o).result.executions = es := List.append_nil es
  have hrs : rs ++ (OrderMatcher.start b o).result.updatedOrders = rs := List.append_nil rs
  refine ⟨?_, ?_, ?_, ?_, ?_, ?_⟩
  · rw [hes, hnew, add_zero]
    change o.quantity - o.filledQuantity = Q o.orderId
    rw [hfill, sub_zero, hQ]
  · rw [hes, hnew]
    exact hfill.ge
  · exact fun _ => Or.inr (by rw [hes, hnew])
  · rw [hes]
    exact h.index
  · intro id c _ hc
    rw [hes]
    rw [hrs] at hc
    exact h.shown hc
  · intro id _ hc
    rw [hes]
    rw [hrs] at hc
    exact h.unseen hc

end Tally

namespace RunningTally

variable {env : Env} {Q : String → ℚ} {es : List Execution} {rs : List Order} {o : Order}
  {s : MatchState} {c : Order} {price : ℚ}

theorem executed_matchCandidate (env : Env) (es : List Execution) (taker : OrderSide) (price : ℚ)
    (s : MatchState) (c : Order) (id : String) :
    executedQuantity id (es ++ (matchCandidate env taker price s c).result.executions) =
      executedQuantity id (es ++ s.result.executions) +
        if s.order.orderId = id ∨ c.orderId = id then matchQuantity s c else 0 := by
  rw [matchCandidate_executions, ← List.append_assoc, executedQuantity_append_single,
    takerRecord_quantity]
  simp only [takerRecord_names]

theorem matchCandidate (h : RunningTally Q es rs o s) (hid : s.order.orderId = o.orderId)
    (hfill : 0 ≤ s.order.filledQuantity) (hs : Live s.book)
    (hfresh : s.book.ordersById[o.orderId]? = none) {side : OrderSide}
    (hc : (s.book.levels side).Holds c.priceKey c) :
    RunningTally Q es rs o (OrderMatcher.matchCandidate env o.side price s c) := by
  have hidx := (hs.coherent.indexed hc).1
  obtain ⟨hQ, hle⟩ := h.index hidx
  have hrest := hs.resting_of_holds hc
  have hne : c.orderId ≠ o.orderId := by
    intro heq
    rw [heq, hfresh] at hidx
    cases hidx
  have hexec := executed_matchCandidate env es o.side price s c
  have htaker : executedQuantity o.orderId
      (es ++ (OrderMatcher.matchCandidate env o.side price s c).result.executions) =
      executedQuantity o.orderId (es ++ s.result.executions) + matchQuantity s c := by
    rw [hexec, if_pos (Or.inl hid)]
  have hcand : executedQuantity c.orderId
      (es ++ (OrderMatcher.matchCandidate env o.side price s c).result.executions) ≤
      (filledCopy env s c).filledQuantity := by
    rw [hexec, if_pos (Or.inr rfl), filledCopy, fillResting_filledQuantity]
    have h0 := hrest.2.1
    linarith
  have hother : ∀ {id : String}, id ≠ o.orderId → id ≠ c.orderId → executedQuantity id
      (es ++ (OrderMatcher.matchCandidate env o.side price s c).result.executions) =
      executedQuantity id (es ++ s.result.executions) := by
    intro id hio hic
    rw [hexec, if_neg, add_zero]
    rintro (heq | heq)
    · exact hio (heq.symm.trans hid)
    · exact hic heq.symm
  refine ⟨?_, ?_, ?_, ?_, ?_, ?_⟩
  · rw [htaker, matchCandidate_remainingQty, ← h.remaining]
    ring
  · rw [htaker, matchCandidate_filledQuantity]
    have hprev := h.filled
    linarith
  · intro hst
    left
    rw [matchCandidate_status] at hst
    split_ifs at hst with hdone
    · exact absurd rfl hst
    · exact not_le.mp hdone
  · intro id e he
    rcases matchCandidate_lookup he with ⟨hic, he⟩ | ⟨rfl, rfl, _⟩
    · have hio : id ≠ o.orderId := by
        rintro rfl
        rw [hfresh] at he
        cases he
      rw [hother hio (Ne.symm hic)]
      exact h.index he
    · exact ⟨by simpa [filledCopy] using hQ, hcand⟩
  · intro id x hio hx hst hpos
    rw [matchCandidate_updatedOrders, ← List.append_assoc, latestCopy_append_single] at hx
    split_ifs at hx with hic
    · have hcid : c.orderId = id := by simpa [filledCopy] using hic
      subst id
      rw [Option.some.injEq] at hx
      subst x
      have hopen := remaining_pos_of_not_filled hst
      have hlt : (filledCopy env s c).filledQuantity < c.quantity := by
        simpa [Order.remainingQuantity, filledCopy] using hopen
      rw [← hcid, ← hQ]
      exact hcand.trans_lt hlt
    · have hcid : id ≠ c.orderId := fun heq => hic (by simp [filledCopy, heq])
      rw [hother hio hcid]
      exact h.shown hio hx hst hpos
  · intro id hio hx
    rw [matchCandidate_updatedOrders, ← List.append_assoc, latestCopy_append_single] at hx
    split_ifs at hx with hic
    have hcid : id ≠ c.orderId := fun heq => hic (by simp [filledCopy, heq])
    rw [hother hio hcid]
    exact h.unseen hio hx

theorem matchByType (env : Env) (fuel : ℕ) {b : OrderBook} (hb : Live b)
    (hfresh : b.ordersById[o.orderId]? = none) (hfill : 0 ≤ o.filledQuantity)
    (h : RunningTally Q es rs o (start b o)) :
    RunningTally Q es rs o (OrderMatcher.matchByType fuel env b o) := by
  refine (matchByType_induction (P := fun s => Taking b o s ∧ RunningTally Q es rs o s) fuel
    hb.coherent ⟨taking_start hb hfresh hfill, h⟩ ?_).2.2
  rintro s c _ ⟨htake, hrun⟩ hr _ hc
  exact ⟨taking_matchCandidate htake hr hc,
    hrun.matchCandidate htake.orderId htake.filled_nonneg htake.live htake.fresh hc⟩

/-- Showing the order itself completes the tally. -/
theorem close (h : RunningTally Q es rs o s) {u : Order} (hid : u.orderId = o.orderId)
    (hu : u.status ≠ .filled → 0 < Q o.orderId →
      executedQuantity o.orderId (es ++ s.result.executions) < Q o.orderId) :
    Tally Q (es ++ s.result.executions) (rs ++ s.result.updatedOrders ++ [u]) s.book := by
  refine ⟨h.index, ?_, ?_⟩
  · intro id c hc hst hpos
    rw [latestCopy_append_single] at hc
    split_ifs at hc with hio
    · rw [Option.some.injEq] at hc
      subst c
      rw [hid] at hio
      subst id
      exact hu hst hpos
    · exact h.shown (fun heq => hio (hid.trans heq.symm)) hc hst hpos
  · intro id hc
    rw [latestCopy_append_single] at hc
    split_ifs at hc with hio
    exact h.unseen (fun heq => hio (hid.trans heq.symm)) hc

theorem executed_lt_of_open (h : RunningTally Q es rs o s) (hst : s.order.status ≠ .filled)
    (hpos : 0 < Q o.orderId) :
    executedQuantity o.orderId (es ++ s.result.executions) < Q o.orderId := by
  rcases h.status hst with hopen | hzero
  · rw [← h.remaining]
    linarith
  · rwa [hzero]

end RunningTally

namespace Tally

variable {Q : String → ℚ} {es : List Execution} {rs : List Order} {b : OrderBook} {o : Order}

theorem addOrder (h : Tally Q es rs b) (hQ : o.quantity = Q o.orderId)
    (hle : executedQuantity o.orderId es ≤ o.filledQuantity) :
    Tally Q es rs (b.addOrder o).1 := by
  refine ⟨?_, h.shown, h.unseen⟩
  intro id e he
  cases ha : b.accepts o with
  | false =>
      rw [addOrder_rejected ha] at he
      exact h.index he
  | true =>
      rw [addOrder_lookup ha] at he
      split_ifs at he with hid
      · rw [Option.some.injEq] at he
        exact he ▸ hid ▸ ⟨hQ, hle⟩
      · exact h.index he

/-- Copies that are followed by the same order do not matter. -/
theorem drop_shown {u : Order} (h : Tally Q es (rs ++ [u]) b) :
    Tally Q es (rs ++ [u] ++ [u]) b := by
  have hsame : ∀ id, latestCopy (rs ++ [u] ++ [u]) id = latestCopy (rs ++ [u]) id := by
    intro id
    rw [latestCopy_append_single, latestCopy_append_single]
    split_ifs <;> rfl
  refine ⟨h.index, ?_, ?_⟩
  · intro id c hc
    exact h.shown (hsame id ▸ hc)
  · intro id hc
    exact h.unseen (hsame id ▸ hc)

/-- A `match_order` call keeps the tally once the caller's order is shown. -/
theorem matchOrderWith (env : Env) (fuel : ℕ) (h : Tally Q es rs b) (hb : Live b)
    (hfresh : b.ordersById[o.orderId]? = none) (hnew : executedQuantity o.orderId es = 0)
    (hfill : o.filledQuantity = 0) (hQ : o.quantity = Q o.orderId) :
    let out := OrderMatcher.matchOrderWith fuel env b o
    Tally Q (es ++ out.result.executions) (rs ++ out.result.updatedOrders ++ [out.order])
      out.book := by
  have hrun := (h.start hnew hfill hQ).matchByType env fuel hb hfresh hfill.ge
  have htake := taking_matchByType env fuel hb hfresh hfill.ge
  have hlast := hrun.close htake.orderId (fun hst => hrun.executed_lt_of_open hst)
  have hqty : (OrderMatcher.matchByType fuel env b o).order.quantity = Q o.orderId := by
    rw [htake.quantity, hQ]
  rcases OrderMatcher.matchOrderWith_cases fuel env b o with
    ⟨_, heq⟩ | ⟨_, _, _, heq⟩ | ⟨_, hopen, now, heq⟩ | ⟨_, heq⟩
  · rw [heq]
    exact (h.start hnew hfill hQ).close rfl
      (fun hst hpos => (h.start hnew hfill hQ).executed_lt_of_open hst hpos)
  · rw [heq]
    apply hlast.addOrder
    · rw [hqty, htake.orderId]
    · rw [htake.orderId]
      exact hrun.filled
  · rw [heq]
    have hlt : executedQuantity o.orderId
        (es ++ (OrderMatcher.matchByType fuel env b o).result.executions) < Q o.orderId := by
      rw [Order.remainingQuantity, hqty] at hopen
      linarith [hrun.filled]
    have hcancel := hrun.close
      (u := (OrderMatcher.matchByType fuel env b o).order.updateStatus .cancelled now)
      htake.orderId (fun _ _ => hlt)
    simpa [MatchResult.addUpdatedOrder] using hcancel.drop_shown
  · rw [heq]
    exact hlast

end Tally

end ActixPura
