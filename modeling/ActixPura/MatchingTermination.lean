import ActixPura.LiveBook

/-!
# The matching loops are left within their fuel

On a live book every round that lets a `while` loop go on takes at least one resting order out
of the book for good, although the stored filled quantity may overshoot. One more round than
there are resting orders is therefore enough, and any larger fuel gives the same outcome.
-/

namespace ActixPura.OrderMatcher

open OrderBook Runs
open Std (ExtTreeMap)

variable {env : Env} {taker : OrderSide} {price : ℚ} {s : MatchState} {c : Order}

def restingCount (b : OrderBook) : ℕ := b.ordersById.size

theorem restingCount_pos {b : OrderBook} {id : String} {o : Order}
    (h : b.ordersById[id]? = some o) : 0 < restingCount b := by
  have hmem : id ∈ b.ordersById := ExtTreeMap.mem_iff_isSome_getElem?.mpr (by simp [h])
  by_contra hz
  have hempty : b.ordersById.isEmpty = true := by
    rw [ExtTreeMap.isEmpty_eq_size_beq_zero]
    simpa [restingCount] using hz
  simp [ExtTreeMap.isEmpty_iff.mp hempty] at hmem

theorem restingCount_removeOrder {b : OrderBook} {id : String} {o : Order}
    (h : b.ordersById[id]? = some o) :
    restingCount (b.removeOrder id).1 + 1 = restingCount b := by
  have hmem : id ∈ b.ordersById := ExtTreeMap.mem_iff_isSome_getElem?.mpr (by simp [h])
  have hpos := restingCount_pos h
  unfold restingCount at hpos ⊢
  rw [removeOrder_ordersById, ExtTreeMap.size_erase, if_pos (by simpa using hmem)]
  omega

theorem restingCount_reinsert_le (b : OrderBook) (u : Order) :
    restingCount (reinsert b u) ≤ restingCount b + 1 := by
  rcases reinsert_cases b u with he | ⟨_, he⟩
  · rw [he]
    omega
  · rw [he]
    cases ha : b.accepts u with
    | false => rw [addOrder_rejected ha]; omega
    | true =>
        unfold restingCount
        rw [addOrder_ordersById ha, ExtTreeMap.size_insert]
        split_ifs <;> omega

theorem reinsert_of_done {b : OrderBook} {u : Order} (h : u.remainingQuantity ≤ 0) :
    reinsert b u = b := by
  simp [reinsert, h]

/-- A resting order that is filled for its whole remainder does not return, whatever it had been
filled for before. -/
theorem fillResting_done (hc : c.Resting) {qty : ℚ} (hq : qty = c.remainingQuantity)
    (now : DateTime) : (fillResting c qty now).remainingQuantity ≤ 0 := by
  have h0 := hc.2.1
  rw [fillResting_remainingQuantity, hq, Order.remainingQuantity]
  linarith

theorem matchQuantity_eq_remaining (h : 0 < s.remainingQty - matchQuantity s c) :
    matchQuantity s c = c.remainingQuantity := by
  unfold matchQuantity at h ⊢
  rcases min_choice s.remainingQty c.remainingQuantity with hm | hm
  · rw [hm, sub_self] at h
    exact absurd h (lt_irrefl 0)
  · exact hm

/-- While the incoming order has quantity left, the candidate is gone from the book. -/
theorem matchCandidate_book_of_open (hc : c.Resting)
    (h : 0 < (matchCandidate env taker price s c).remainingQty) :
    (matchCandidate env taker price s c).book = (s.book.removeOrder c.orderId).1 := by
  rw [matchCandidate_book]
  exact reinsert_of_done (fillResting_done hc (matchQuantity_eq_remaining h) _)

theorem restingCount_matchCandidate {side : OrderSide} {k : ℤ} (hb : s.book.Coherent)
    (hc : (s.book.levels side).Holds k c) (hr : c.Resting)
    (h : 0 < (matchCandidate env taker price s c).remainingQty) :
    restingCount (matchCandidate env taker price s c).book < restingCount s.book := by
  rw [matchCandidate_book_of_open hr h]
  have := restingCount_removeOrder (hb.indexed hc).1
  omega

theorem restingCount_matchLevel {k : ℤ} {q : List Order} (hb : Live s.book)
    (hr : 0 < s.remainingQty) (hq : (s.book.levels taker.opposite)[k]? = some q)
    (hbest : BestKey taker s.book k) (hne : q ≠ [])
    (h : 0 < (matchLevel env taker price s q).remainingQty) :
    restingCount (matchLevel env taker price s q).book < restingCount s.book := by
  cases q with
  | nil => exact absurd rfl hne
  | cons c q =>
      have hc : (s.book.levels taker.opposite).Holds k c := ⟨_, hq, by simp⟩
      have hk := (hb.coherent.indexed hc).2.2.2
      rw [matchLevel] at h ⊢
      split_ifs at h ⊢ with hle
      · exact absurd h (not_lt.mpr hle)
      · have hopen := not_le.mp hle
        have hfirst := restingCount_matchCandidate hb.coherent hc (hb.resting_of_holds hc) hopen
        set s₁ := matchCandidate env taker price s c
        have hrest : Live (matchLevel env taker price s₁ q).book ∧
            (0 < (matchLevel env taker price s₁ q).remainingQty →
              restingCount (matchLevel env taker price s₁ q).book ≤ restingCount s₁.book) := by
          obtain ⟨hnot, hnd⟩ := List.nodup_cons.mp (hb.coherent.nodup hq)
          refine (matchLevel_induction (P := fun t => Live t.book ∧ (0 < t.remainingQty →
            restingCount t.book ≤ restingCount s₁.book)) ?_ q s₁
            (coherent_matchCandidate hb.coherent)
            ⟨live_matchCandidate hb (hb.resting_of_holds hc) hr, fun _ => le_rfl⟩ hopen
            (matchCandidate_isActive.mpr hopen)
            (bestKey_matchCandidate hb.coherent (hk ▸ hc) hbest) ?_ hnd).2
          · rintro t e hco ⟨hs, hle⟩ hr _ _ he _
            refine ⟨live_matchCandidate hs (hs.resting_of_holds he) hr, fun ht => ?_⟩
            exact (restingCount_matchCandidate hco he (hs.resting_of_holds he) ht).le.trans (hle hr)
          · intro e he
            have heh : (s.book.levels taker.opposite).Holds k e := ⟨_, hq, by simp [he]⟩
            refine ⟨(hb.coherent.indexed heh).2.2.2,
              (holds_matchCandidate_of_ne hb.coherent ?_).mpr heh⟩
            exact fun heq => hnot (heq ▸ List.mem_map_of_mem he)
        exact (hrest.2 h).trans_lt hfirst

/-- The rounds a market loop can still make. -/
def openRounds (s : MatchState) : ℕ := if 0 < s.remainingQty then restingCount s.book else 0

theorem live_marketRound {s' : MatchState} (hb : Live s.book)
    (hs : marketRound env taker s = some s') : Live s'.book := by
  obtain ⟨hr, ha, k, q, _, hq, hbest, rfl⟩ := marketRound_some hb.coherent hs
  refine (matchLevel_induction (P := fun t => Live t.book) ?_ q s hb.coherent hb hr ha hbest
    (level_candidates hb.coherent hq) (hb.coherent.nodup hq)).2
  intro t e _ ht hr _ _ he _
  exact live_matchCandidate ht (ht.resting_of_holds he) hr

theorem openRounds_marketRound {s' : MatchState} (hb : Live s.book)
    (hs : marketRound env taker s = some s') : openRounds s' < openRounds s := by
  obtain ⟨hr, _, k, q, hne, hq, hbest, rfl⟩ := marketRound_some hb.coherent hs
  obtain ⟨c, hc⟩ := List.exists_mem_of_ne_nil q hne
  have hpos := restingCount_pos (hb.coherent.indexed ⟨q, hq, hc⟩).1
  unfold openRounds
  rw [if_pos hr]
  split_ifs with hopen
  · exact restingCount_matchLevel hb hr hq hbest hne hopen
  · exact hpos

/-- The market loop on a live book is left when the fuel exceeds the number of orders. -/
theorem marketRound_halts {fuel : ℕ} (hb : Live s.book) (hfuel : restingCount s.book < fuel) :
    marketRound env taker (loop (marketRound env taker) fuel s) = none := by
  apply loop_halts (I := fun t => Live t.book) (fun _ _ ht hs => live_marketRound ht hs)
    openRounds (fun _ _ ht hs => openRounds_marketRound ht hs) hb
  unfold openRounds
  split_ifs <;> omega

/-- The market loop leaves the incoming order served, or no longer active, or the opposite side
empty. -/
theorem market_loop_exhausts {fuel : ℕ} (hb : Live s.book) (hfuel : restingCount s.book < fuel) :
    let t := loop (marketRound env taker) fuel s
    t.remainingQty ≤ 0 ∨ t.order.isActive = false ∨
      ∀ k : ℤ, (t.book.levels taker.opposite)[k]? = none := by
  intro t
  have ht : Live t.book := loop_invariant (I := fun t => Live t.book)
    (fun _ _ ht hs => live_marketRound ht hs) fuel hb
  exact marketRound_none ht.coherent (marketRound_halts hb hfuel)

theorem matchOrderWith_eq_matchOrder {fuel : ℕ} {b : OrderBook} {o : Order} (hb : Live b)
    (hfuel : restingCount b < fuel) : matchOrderWith fuel env b o = matchOrder env b o := by
  have hloop : loop (marketRound env o.side) fuel (start b o) =
      loop (marketRound env o.side) (restingCount b + 1) (start b o) :=
    loop_eq_of_halted (marketRound_halts hb (Nat.lt_succ_self _)) hfuel
  have htype : matchByType fuel env b o = matchByType (restingCount b + 1) env b o := by
    rcases matchByType_cases fuel env b o with ⟨ht, he⟩ | ⟨p, ht, hp, he⟩ | ⟨ht, hp, he⟩
    · rcases matchByType_cases (restingCount b + 1) env b o with ⟨_, he'⟩ | ⟨_, ht', _⟩ | ⟨ht', _⟩
      · rw [he, he', hloop]
      · rw [ht] at ht'
        cases ht'
      · exact absurd ht ht'
    · cases hs : o.side <;> simp [matchByType, ht, hp, hs]
    · cases hot : o.orderType <;> cases hs : o.side <;> simp_all [matchByType]
  unfold matchOrder matchOrderWith
  rw [htype]
  rfl

theorem restingCount_matchPair {b : OrderBook} {r : MatchResult} {sellPrice : ℚ}
    {buyOrder sellOrder : Order} (hb : Live b) {kb ks : ℤ}
    (hbuy : (b.levels .buy).Holds kb buyOrder) (hsell : (b.levels .sell).Holds ks sellOrder) :
    restingCount (matchPair env (b, r) sellPrice buyOrder sellOrder).1 < restingCount b := by
  have hne := pair_ids_ne hb.coherent hbuy hsell
  have hfirst := restingCount_removeOrder (hb.coherent.indexed hbuy).1
  have hsecond : restingCount ((b.removeOrder buyOrder.orderId).1.removeOrder sellOrder.orderId).1
      + 1 = restingCount (b.removeOrder buyOrder.orderId).1 := by
    apply restingCount_removeOrder (o := sellOrder)
    rw [removeOrder_lookup, if_neg hne]
    exact (hb.coherent.indexed hsell).1
  dsimp only [matchPair]
  rcases min_choice buyOrder.remainingQuantity sellOrder.remainingQuantity with hm | hm
  · rw [reinsert_of_done (u := fillResting buyOrder _ _)
      (fillResting_done (hb.resting_of_holds hbuy) hm _)]
    have := restingCount_reinsert_le ((b.removeOrder buyOrder.orderId).1.removeOrder
      sellOrder.orderId).1 (fillResting sellOrder (min buyOrder.remainingQuantity
        sellOrder.remainingQuantity) (env.now r.executions.length))
    omega
  · rw [reinsert_of_done (u := fillResting sellOrder _ _)
      (fillResting_done (hb.resting_of_holds hsell) hm _)]
    have := restingCount_reinsert_le ((b.removeOrder buyOrder.orderId).1.removeOrder
      sellOrder.orderId).1 (fillResting buyOrder (min buyOrder.remainingQuantity
        sellOrder.remainingQuantity) (env.now r.executions.length))
    omega

theorem restingCount_continuousRound {s s' : OrderBook × MatchResult} (hb : Live s.1)
    (hs : continuousRound env s = some s') : restingCount s'.1 < restingCount s.1 := by
  obtain ⟨b, r⟩ := s
  obtain ⟨kb, ks, buyOrder, sellOrder, qb, qs, hqb, hqs, _, _, _, rfl⟩ :=
    continuousRound_some hb.coherent hs
  exact restingCount_matchPair hb ⟨_, hqb, by simp⟩ ⟨_, hqs, by simp⟩

/-- `continuous_match` on a live book is left when the fuel exceeds the number of orders. -/
theorem continuousRound_halts {fuel : ℕ} {b : OrderBook} (hb : Live b)
    (hfuel : restingCount b < fuel) :
    continuousRound env (continuousMatchWith fuel env b) = none :=
  loop_halts (I := fun s : OrderBook × MatchResult => Live s.1)
    (fun _ _ h hs => live_continuousRound h hs) (fun s => restingCount s.1)
    (fun _ _ h hs => restingCount_continuousRound h hs) hb hfuel

theorem continuousMatchWith_eq_continuousMatch {fuel : ℕ} {b : OrderBook} (hb : Live b)
    (hfuel : restingCount b < fuel) :
    continuousMatchWith fuel env b = continuousMatch env b :=
  loop_eq_of_halted (continuousRound_halts hb (Nat.lt_succ_self _)) hfuel

/-- The loop of a market order on a live book, whoever the incoming order is. -/
theorem ends_market (env : Env) (taker : OrderSide) {b : OrderBook} (o : Order) (hb : Live b) :
    Ends (marketRound env taker) (fun s => 0 < s.remainingQty ∧ s.order.isActive = true)
      (fun s => restingCount s.book) fun n => loop (marketRound env taker) n (start b o) where
  round n := loop_snoc n (start b o)
  lowers n s' hs hopen := by
    have hlive : Live (loop (marketRound env taker) n (start b o)).book :=
      loop_invariant (I := fun s => Live s.book) (fun _ _ h hs => live_marketRound h hs) n hb
    obtain ⟨hr, _, k, q, hne, hq, hbest, rfl⟩ := marketRound_some hlive.coherent hs
    exact restingCount_matchLevel hlive hr hq hbest hne hopen.1
  left n hn := marketRound_halts hb hn

theorem ends_continuous (env : Env) {b : OrderBook} (hb : Live b) :
    Ends (continuousRound env) (fun _ => True) (fun s => restingCount s.1)
      fun n => continuousMatchWith n env b where
  round n := loop_snoc n (b, MatchResult.new)
  lowers n s' hs _ := by
    have hlive : Live (continuousMatchWith n env b).1 :=
      loop_invariant (I := fun s => Live s.1)
        (fun _ _ h hs => live_continuousRound h hs) n hb
    exact restingCount_continuousRound hlive hs
  left n hn := continuousRound_halts hb hn

/-- The `while` loops of `continuous_match` and of the two market functions end on every live book,
and each round after which one of them goes on takes a resting order out of the book. -/
theorem matching_loops_terminate (env : Env) (b : OrderBook) (o : Order) (hb : Live b) :
    Ends (continuousRound env) (fun _ => True) (fun s => restingCount s.1)
        (fun n => continuousMatchWith n env b) ∧
      Ends (marketRound env .buy) (fun s => 0 < s.remainingQty ∧ s.order.isActive = true)
        (fun s => restingCount s.book) (fun n => matchMarketBuyOrder n env b o) ∧
      Ends (marketRound env .sell) (fun s => 0 < s.remainingQty ∧ s.order.isActive = true)
        (fun s => restingCount s.book) (fun n => matchMarketSellOrder n env b o) :=
  ⟨ends_continuous env hb, ends_market env .buy o hb, ends_market env .sell o hb⟩

/-- A buy order for 12 that was filled for 4, and two sell orders for 5 at lower prices. -/
def partlyFilledBook : OrderBook :=
  let limit (id : String) (side : OrderSide) (price : ℚ) (quantity : ℕ) :=
    Order.fromRequest "" 0 ⟨some id, "AAPL", side, some price, quantity, "acc", .limit⟩
  ((((OrderBook.new "AAPL").addOrder { limit "b1" .buy 101 12 with
    filledQuantity := 4, status := .partiallyFilled }).1.addOrder
      (limit "s1" .sell 99 5)).1.addOrder (limit "s2" .sell 100 5)).1

theorem live_partlyFilledBook : Live partlyFilledBook := by
  apply Live.addOrder
  · apply Live.addOrder
    · exact (Live.new "AAPL").addOrder (by decide +kernel) (by decide +kernel)
    · decide +kernel
    · decide +kernel
  · decide +kernel
  · decide +kernel

/-- The match of 5 stores 13 as the filled quantity of the order for 12, and the loops end. -/
theorem matching_loops_terminate_partlyFilledBook :
    let env : Env := ⟨fun n => n, fun n => toString n⟩
    let b := partlyFilledBook
    let o := Order.fromRequest "" 0 ⟨some "m1", "AAPL", .sell, none, 3, "acc", .market⟩
    (continuousMatch env b).2.updatedOrders.map (fun u => (u.orderId, u.filledQuantity)) =
        [("b1", 13), ("s1", 5)] ∧
      Ends (continuousRound env) (fun _ => True) (fun s => restingCount s.1)
        (fun n => continuousMatchWith n env b) ∧
      Ends (marketRound env .buy) (fun s => 0 < s.remainingQty ∧ s.order.isActive = true)
        (fun s => restingCount s.book) (fun n => matchMarketBuyOrder n env b o) ∧
      Ends (marketRound env .sell) (fun s => 0 < s.remainingQty ∧ s.order.isActive = true)
        (fun s => restingCount s.book) (fun n => matchMarketSellOrder n env b o) := by
  intro env b o
  exact ⟨by decide +kernel, matching_loops_terminate env b o live_partlyFilledBook⟩

end ActixPura.OrderMatcher
