import ActixPura.MatchingPass
import ActixPura.PricePriority

/-!
# What a call of `match_order` executes in total

A call executes as much as it can: the whole incoming quantity, or everything the eligible orders
have left. It visits its candidates in turn, each of them once, and it stops only when the incoming
order is done or no candidate is left. The doubled filled quantities do not come into this, because
the loops count down a remaining quantity of their own.

Eligibility is stated about the waiting orders of the book and the truncated limit price, not about
the traversals of the code. The truncation is a parameter: the cast to `i64` saturates, so it is not
the integral part for every price.
-/

namespace ActixPura

open OrderBook

namespace QueueMap

/-- Filtering by a label that is constant on every queue keeps or drops whole queues. -/
theorem filter_flatMap_queues {κ α : Type*} (f : α → κ) (p : κ → Bool) {l : List (κ × List α)}
    (h : ∀ e ∈ l, ∀ x ∈ e.2, f x = e.1) :
    (l.flatMap Prod.snd).filter (fun x => p (f x)) =
      (l.filter (fun e => p e.1)).flatMap Prod.snd := by
  induction l with
  | nil => rfl
  | cons e l ih =>
      have hrest := ih fun e' he' => h e' (List.mem_cons_of_mem _ he')
      have hkey : e.2.filter (fun x => p (f x)) = if p e.1 then e.2 else [] := by
        have hcongr : e.2.filter (fun x => p (f x)) = e.2.filter (fun _ => p e.1) := by
          refine List.filter_congr fun x hx => ?_
          rw [h e List.mem_cons_self x hx]
        rw [hcongr]
        cases p e.1 <;> simp
      rw [List.flatMap_cons, List.filter_append, hrest, hkey, List.filter_cons]
      split
      · rw [List.flatMap_cons]
      · rw [List.nil_append]

end QueueMap

namespace OrderMatcher

/-- Which waiting opposite orders may be traded: all of them by a market order, those at or below
the truncated price by a limit buy, those at or above it by a limit sell, none by another type. -/
def EligibleUpTo (truncated : ℚ → ℤ) (o r : Order) : Prop :=
  match o.orderType, o.price with
  | .market, _ => True
  | .limit, some price =>
    match o.side with
    | .buy => r.priceKey ≤ truncated price
    | .sell => truncated price ≤ r.priceKey
  | _, _ => False

instance decidableEligibleUpTo (truncated : ℚ → ℤ) (o r : Order) :
    Decidable (EligibleUpTo truncated o r) := by
  unfold EligibleUpTo
  split
  · infer_instance
  · split <;> infer_instance
  · infer_instance

def eligibleOrders (truncated : ℚ → ℤ) (b : OrderBook) (o : Order) : List Order :=
  (b.levels o.side.opposite).entries.filter fun r => EligibleUpTo truncated o r

def totalRemaining (orders : List Order) : ℚ := (orders.map Order.remainingQuantity).sum

def totalExecuted (es : List Execution) : ℚ := (es.map Execution.quantity).sum

/-- The executions of a call are as large as the book allows, positive, and name every resting order
at most once. -/
structure Complete (truncated : ℚ → ℤ) (b : OrderBook) (o : Order) (es : List Execution) :
    Prop where
  total : totalExecuted es = min o.quantity (totalRemaining (eligibleOrders truncated b o))
  positive : ∀ e ∈ es, 0 < e.quantity
  once : ∀ (r : Order), b.ordersById[r.orderId]? = some r →
    es.countP (fun e => e.names r.orderId) ≤ 1

/-- The price key of the code. -/
def centKey (price : ℚ) : ℤ := asI64 (price * 100)

section Candidates

variable {b : OrderBook} {o : Order}

theorem bestFirst_perm (b : OrderBook) (taker : OrderSide) :
    (bestFirst b taker).Perm (b.levels taker.opposite).entries := by
  cases taker with
  | buy => exact List.Perm.refl _
  | sell => exact (List.reverse_perm _).flatMap_right _

/-- The candidates of the code are the eligible orders in some order. -/
theorem candidates_perm (hb : b.Coherent) (o : Order) :
    (candidates b o).Perm (eligibleOrders centKey b o) := by
  have hkey : ∀ side, ∀ e ∈ (b.levels side).toList, ∀ x ∈ e.2, x.priceKey = e.1 := by
    intro side e he x hx
    exact (hb.indexed ⟨e.2, QueueMap.mem_toList.mp he, hx⟩).2.2.2
  cases ht : o.orderType with
  | market =>
      simp only [candidates, eligibleOrders, EligibleUpTo, ht, decide_true, List.filter_true]
      exact bestFirst_perm b o.side
  | limit =>
      cases hp : o.price with
      | none => simp [candidates, eligibleOrders, EligibleUpTo, ht, hp]
      | some price =>
          have hcand : candidates b o = limitCandidates b o.side price := by
            simp only [candidates, ht, hp]
          rw [hcand, eligibleOrders]
          cases hs : o.side with
          | buy =>
              have hfilter := QueueMap.filter_flatMap_queues Order.priceKey
                (fun k => decide (k ≤ centKey price)) (hkey .sell)
              have hcongr : (b.levels .sell).entries.filter (fun r => EligibleUpTo centKey o r) =
                  (b.levels .sell).entries.filter (fun r => r.priceKey ≤ centKey price) :=
                List.filter_congr fun r _ => by simp [EligibleUpTo, ht, hp, hs]
              exact List.Perm.of_eq (hcongr.trans hfilter).symm
          | sell =>
              have hfilter := QueueMap.filter_flatMap_queues Order.priceKey
                (fun k => decide (centKey price ≤ k)) (hkey .buy)
              have hcongr : (b.levels .buy).entries.filter (fun r => EligibleUpTo centKey o r) =
                  (b.levels .buy).entries.filter (fun r => centKey price ≤ r.priceKey) :=
                List.filter_congr fun r _ => by simp [EligibleUpTo, ht, hp, hs]
              exact List.Perm.of_eq (hcongr.trans hfilter).symm
  | stopLoss | stopLimit | immediateOrCancel | fillOrKill =>
      simp [candidates, eligibleOrders, EligibleUpTo, ht]

theorem holds_of_mem_candidates (hb : b.Coherent) {c : Order} (h : c ∈ candidates b o) :
    (b.levels o.side.opposite).Holds c.priceKey c := by
  have hmem := List.mem_of_mem_filter ((candidates_perm hb o).mem_iff.mp h)
  obtain ⟨k, hk⟩ := QueueMap.mem_entries.mp hmem
  rwa [(hb.indexed hk).2.2.2]

theorem nodup_candidates (hb : b.Coherent) (o : Order) :
    ((candidates b o).map Order.orderId).Nodup := by
  have hall : ((b.levels o.side.opposite).entries.map Order.orderId).Nodup :=
    hb.nodup_traversal (List.Sublist.refl _)
  have hsome : ((eligibleOrders centKey b o).map Order.orderId).Nodup :=
    hall.sublist (List.filter_sublist.map _)
  exact ((candidates_perm hb o).map Order.orderId).nodup_iff.mpr hsome

theorem fillsWhole_candidates (hb : Live b) (o : Order) (qty : ℚ) :
    FillsWhole qty (candidates b o) :=
  fillsWhole_of_nonneg fun _ hc =>
    (hb.resting_of_holds (holds_of_mem_candidates hb.coherent hc)).2.1

end Candidates

section Exhaustion

variable {env : Env} {taker : OrderSide} {s t : MatchState} {l : List Order}

theorem Visits.inactive_done (hv : Visits env taker s l t) (hs : s.order.isActive = true)
    (ht : t.order.isActive = false) : t.remainingQty ≤ 0 := by
  induction hv with
  | stop s =>
      rw [hs] at ht
      cases ht
  | visit price hr hv ih =>
      cases hv with
      | stop =>
          by_contra hopen
          rw [matchCandidate_isActive.mpr (not_le.mp hopen)] at ht
          cases ht
      | visit price' hr' hv' => exact ih (matchCandidate_isActive.mpr hr') ht

/-- The loops visit candidates until the incoming order is done or none is left. -/
theorem visits_exhaust (env : Env) {fuel : ℕ} {b : OrderBook} {o : Order} (hb : Live b)
    (hact : o.isActive = true) (hfuel : restingCount b < fuel) :
    ∃ l rest, candidates b o = l ++ rest ∧
      Visits env o.side (start b o) l (matchByType fuel env b o) ∧
      (rest = [] ∨ (matchByType fuel env b o).remainingQty ≤ 0) := by
  have hwhole := fillsWhole_candidates hb o o.remainingQuantity
  rcases matchByType_cases fuel env b o with ⟨ht, he⟩ | ⟨p, ht, hp, he⟩ | ⟨hm, hnone, he⟩
  · have hcand : candidates b o = bestFirst b o.side := by simp only [candidates, ht]
    rw [hcand] at hwhole
    obtain ⟨l, rest, hsplit, hv⟩ := visits_market env (s := start b o) fuel hb.coherent hwhole
    change bestFirst b o.side = l ++ rest at hsplit
    rw [he, hcand]
    refine ⟨l, rest, hsplit, hv, ?_⟩
    by_cases hdone : (Runs.loop (marketRound env o.side) fuel (start b o)).remainingQty ≤ 0
    · exact Or.inr hdone
    · left
      have hopen := not_le.mp hdone
      rw [hsplit] at hwhole
      have hbook := (hv.removes hwhole hopen).2
      have hempty := ((market_loop_exhausts hb hfuel).resolve_left hdone).resolve_left
        fun hinactive => hdone (hv.inactive_done hact (by simpa using hinactive))
      by_contra hrest
      obtain ⟨d, hd⟩ := List.exists_mem_of_ne_nil rest hrest
      have hmem : d ∈ candidates b o := by
        rw [hcand, hsplit]
        exact List.mem_append_right _ hd
      have hnodup := nodup_candidates hb.coherent o
      rw [hcand, hsplit, List.map_append, List.nodup_append] at hnodup
      have hholds : ((removeAll b l).levels o.side.opposite).Holds d.priceKey d :=
        (holds_removeAll hb.coherent).mpr ⟨holds_of_mem_candidates hb.coherent hmem, fun c hc heq =>
          hnodup.2.2 c.orderId (List.mem_map_of_mem hc) d.orderId (List.mem_map_of_mem hd) heq.symm⟩
      obtain ⟨q, hq, -⟩ := hholds
      have hnoq := hempty d.priceKey
      rw [hbook] at hnoq
      exact absurd (hnoq.symm.trans hq) (by simp)
  · rw [he]
    have hcand : candidates b o = limitCandidates b o.side p := by simp only [candidates, ht, hp]
    rw [hcand]
    obtain ⟨l, rest, hsplit, hv, hend⟩ :=
      visits_matchCandidates env o.side (start b o) (limitCandidates b o.side p)
    refine ⟨l, rest, hsplit, hv, hend.imp_right ?_⟩
    rintro (hdone | hinactive)
    · exact hdone
    · exact hv.inactive_done hact hinactive
  · have hcand : candidates b o = [] := by
      cases ht : o.orderType with
      | market => exact absurd ht hm
      | limit => simp only [candidates, ht, hnone ht]
      | stopLoss | stopLimit | immediateOrCancel | fillOrKill => simp only [candidates, ht]
    rw [he, hcand]
    exact ⟨[], [], rfl, .stop _, Or.inl rfl⟩

end Exhaustion

section Fills

/-- The execution of a match of the order `id` with the waiting order `c`. -/
structure Fills (id : String) (e : Execution) (c : Order) : Prop where
  positive : 0 < e.quantity
  names_iff : ∀ i, e.names i = true ↔ id = i ∨ c.orderId = i

theorem countP_fills {id i : String} (hi : id ≠ i) {es : List Execution} {l : List Order}
    (h : List.Forall₂ (Fills id) es l) :
    es.countP (fun e => e.names i) = (l.map Order.orderId).count i := by
  induction h with
  | nil => rfl
  | @cons e c es l he _ ih =>
      have hiff : e.names i = (c.orderId == i) := by
        rw [Bool.eq_iff_iff, he.names_iff, beq_iff_eq]
        exact or_iff_right hi
      rw [List.countP_cons, List.map_cons, List.count_cons, ih, hiff]

theorem fills_positive {id : String} {es : List Execution} {l : List Order}
    (h : List.Forall₂ (Fills id) es l) : ∀ e ∈ es, 0 < e.quantity := by
  induction h with
  | nil => simp
  | cons he _ ih => exact List.forall_mem_cons.mpr ⟨he.positive, ih⟩

@[simp] theorem totalRemaining_nil : totalRemaining [] = 0 := rfl

@[simp] theorem totalRemaining_cons (c : Order) (l : List Order) :
    totalRemaining (c :: l) = c.remainingQuantity + totalRemaining l := List.sum_cons

theorem totalRemaining_append (l l' : List Order) :
    totalRemaining (l ++ l') = totalRemaining l + totalRemaining l' := by
  rw [totalRemaining, List.map_append, List.sum_append]
  rfl

theorem totalRemaining_nonneg {l : List Order} (h : ∀ c ∈ l, 0 < c.remainingQuantity) :
    0 ≤ totalRemaining l := by
  induction l with
  | nil => exact le_rfl
  | cons c l ih =>
      rw [totalRemaining_cons]
      have hrest := ih fun d hd => h d (List.mem_cons_of_mem _ hd)
      linarith [h c List.mem_cons_self]

@[simp] theorem totalExecuted_cons (e : Execution) (es : List Execution) :
    totalExecuted (e :: es) = e.quantity + totalExecuted es := List.sum_cons

variable {env : Env} {taker : OrderSide} {s t : MatchState} {l : List Order}

theorem fills_takerRecord (env : Env) (taker : OrderSide) {c : Order} (price : ℚ)
    (hr : 0 < s.remainingQty)
    (hc : 0 < c.remainingQuantity) :
    Fills s.order.orderId (takerRecord env s.result.executions.length taker s.order c price
      (matchQuantity s c)) c where
  positive := by
    rw [takerRecord_quantity]
    exact lt_min hr hc
  names_iff i := takerRecord_names _ _ _ _ _ _ _ _

/-- A pass adds one execution for every visited order, and they account for the quantity that
went. -/
theorem Visits.executions (hv : Visits env taker s l t)
    (hl : ∀ c ∈ l, 0 < c.remainingQuantity) :
    ∃ es, t.result.executions = s.result.executions ++ es ∧
      List.Forall₂ (Fills s.order.orderId) es l ∧
      s.remainingQty = t.remainingQty + totalExecuted es := by
  induction hv with
  | stop s => exact ⟨[], by simp, .nil, by simp [totalExecuted]⟩
  | @visit s t c l price hr _ ih =>
      obtain ⟨es, hes, hfills, hsum⟩ := ih fun d hd => hl d (List.mem_cons_of_mem _ hd)
      have hfirst := fills_takerRecord env taker price hr (hl c List.mem_cons_self)
      refine ⟨_ :: es, ?_, .cons hfirst hfills, ?_⟩
      · rw [hes, matchCandidate_executions, List.append_assoc, List.singleton_append]
      · rw [totalExecuted_cons, takerRecord_quantity]
        rw [matchCandidate_remainingQty] at hsum
        linarith

theorem Visits.remaining_nonneg (hv : Visits env taker s l t) (hs : 0 ≤ s.remainingQty) :
    0 ≤ t.remainingQty := by
  induction hv with
  | stop s => exact hs
  | @visit s t c l price _ _ ih =>
      apply ih
      rw [matchCandidate_remainingQty, matchQuantity]
      linarith [min_le_left s.remainingQty c.remainingQuantity]

/-- A pass takes at most what the visited orders have left. -/
theorem Visits.taken_le_total (hv : Visits env taker s l t) :
    s.remainingQty ≤ t.remainingQty + totalRemaining l := by
  induction hv with
  | stop s => simp
  | @visit s t c l price _ _ ih =>
      rw [matchCandidate_remainingQty, matchQuantity] at ih
      rw [totalRemaining_cons]
      linarith [min_le_right s.remainingQty c.remainingQuantity]

/-- A pass that leaves quantity takes all that the visited orders have left. -/
theorem Visits.total_of_open (hv : Visits env taker s l t) (hopen : 0 < t.remainingQty) :
    s.remainingQty = t.remainingQty + totalRemaining l := by
  induction hv with
  | stop s => simp
  | @visit s t c l price _ hv ih =>
      have hrest := ih hopen
      have hfirst := hv.open_start hopen
      rw [matchCandidate_remainingQty] at hrest hfirst
      rw [matchQuantity_eq_remaining hfirst] at hrest
      rw [totalRemaining_cons]
      linarith

end Fills

section Call

variable {env : Env} {fuel : ℕ} {b : OrderBook} {o : Order}

theorem remaining_of_mem_candidates (hb : Live b) : ∀ c ∈ candidates b o,
    0 < c.remainingQuantity := by
  intro c hc
  exact (hb.resting_of_holds (holds_of_mem_candidates hb.coherent hc)).remaining_pos

theorem totalRemaining_candidates (hb : b.Coherent) (o : Order) :
    totalRemaining (candidates b o) = totalRemaining (eligibleOrders centKey b o) :=
  ((candidates_perm hb o).map _).sum_eq

/-- The quantity that is left when the loops are left. -/
theorem matchByType_remaining (env : Env) (hb : Live b) (hact : o.isActive = true)
    (hqty : 0 ≤ o.remainingQuantity) (hfuel : restingCount b < fuel) :
    (matchByType fuel env b o).remainingQty =
      o.remainingQuantity - min o.remainingQuantity (totalRemaining (candidates b o)) := by
  obtain ⟨l, rest, hsplit, hv, hend⟩ := visits_exhaust env hb hact hfuel
  have hrest : 0 ≤ totalRemaining rest := totalRemaining_nonneg fun c hc =>
    remaining_of_mem_candidates (o := o) hb c (hsplit ▸ List.mem_append_right _ hc)
  have hnonneg := hv.remaining_nonneg hqty
  have hle := hv.taken_le_total
  rw [hsplit, totalRemaining_append]
  change o.remainingQuantity ≤ _ at hle
  by_cases hdone : (matchByType fuel env b o).remainingQty ≤ 0
  · rw [min_eq_left (by linarith)]
    linarith
  · have htotal := hv.total_of_open (not_le.mp hdone)
    change o.remainingQuantity = _ at htotal
    rw [hend.resolve_right hdone, totalRemaining_nil, add_zero, min_eq_right (by linarith)]
    linarith

theorem complete_matchByType (env : Env) (hb : Live b) (hact : o.isActive = true)
    (hfresh : b.ordersById[o.orderId]? = none) (hfill : o.filledQuantity = 0)
    (hqty : 0 < o.quantity) (hfuel : restingCount b < fuel) :
    Complete centKey b o (matchByType fuel env b o).result.executions := by
  have hrem : o.remainingQuantity = o.quantity := by rw [Order.remainingQuantity, hfill, sub_zero]
  obtain ⟨l, rest, hsplit, hv, -⟩ := visits_exhaust env hb hact hfuel
  obtain ⟨es, hes, hfills, hsum⟩ := hv.executions fun c hc =>
    remaining_of_mem_candidates (o := o) hb c (hsplit ▸ List.mem_append_left _ hc)
  have hleft := matchByType_remaining env hb hact (hrem ▸ hqty.le) hfuel
  rw [totalRemaining_candidates hb.coherent, hrem] at hleft
  change o.remainingQuantity = _ at hsum
  rw [hrem] at hsum
  change (matchByType fuel env b o).result.executions = [] ++ es at hes
  rw [hes, List.nil_append]
  refine ⟨by linarith, fills_positive hfills, ?_⟩
  intro r hr
  have hne : o.orderId ≠ r.orderId := by
    intro heq
    rw [heq, hr] at hfresh
    cases hfresh
  have hnodup := nodup_candidates hb.coherent o
  rw [hsplit, List.map_append] at hnodup
  change List.Forall₂ (Fills o.orderId) es l at hfills
  rw [countP_fills hne hfills]
  exact List.nodup_iff_count_le_one.mp hnodup.of_append_left _

/-- A call executes the incoming quantity or all that the eligible orders have left, in positive
parts, and it names no resting order twice. -/
theorem execution_complete (env : Env) (b : OrderBook) (o : Order) (hb : Live b)
    (hact : o.isActive = true) (hfresh : b.ordersById[o.orderId]? = none)
    (hfill : o.filledQuantity = 0) (hqty : 0 < o.quantity) :
    Complete centKey b o (matchOrder env b o).result.executions := by
  rw [matchOrder, matchOrderWith_executions _ env b hact]
  exact complete_matchByType env hb hact hfresh hfill hqty (Nat.lt_succ_self _)

/-- A buy order so high that its price key is the largest `i64`. -/
def highestBid : OrderBook :=
  ((OrderBook.new "AAPL").addOrder
    (Order.fromRequest "" 0 ⟨some "b1", "AAPL", .buy, some (10 ^ 18), 5, "acc", .limit⟩)).1

theorem sound_highestBid : Sound highestBid :=
  (Sound.new "AAPL").addOrder (by decide +kernel) (by decide +kernel)

/-- A sell order at that price takes it, although the integral part of the price in hundredths is
above every key. -/
theorem not_complete_above_range : ¬ ∀ (env : Env) (b : OrderBook) (o : Order), Sound b →
    o.isActive = true → b.ordersById[o.orderId]? = none → o.symbol = b.symbol →
    o.filledQuantity = 0 → 0 < o.quantity →
    Complete (fun price => trunc (100 * price)) b o (matchOrder env b o).result.executions := by
  intro hall
  let env : Env := ⟨fun n => n, fun n => toString n⟩
  let o : Order :=
    Order.fromRequest "" 0 ⟨some "s1", "AAPL", .sell, some (10 ^ 18), 5, "acc", .limit⟩
  have h := hall env highestBid o sound_highestBid rfl (by decide +kernel) (by decide +kernel) rfl
    (by decide +kernel)
  have hsome : totalExecuted (matchOrder env highestBid o).result.executions = 5 := by
    decide +kernel
  have hnone : totalRemaining (eligibleOrders (fun price => trunc (100 * price)) highestBid o) =
      0 := by decide +kernel
  have htotal := h.total
  rw [hsome, hnone] at htotal
  exact absurd htotal (by decide +kernel)

/-- A market sell order that meets two bids. -/
theorem execution_complete_twoBids :
    let env : Env := ⟨fun n => n, fun n => toString n⟩
    let o := Order.fromRequest "" 0 ⟨some "s1", "AAPL", .sell, none, 8, "acc", .market⟩
    totalRemaining (eligibleOrders centKey twoBids o) = 10 ∧
      Complete centKey twoBids o (matchOrder env twoBids o).result.executions := by
  intro env o
  exact ⟨by decide +kernel, execution_complete env twoBids o sound_twoBids.live rfl
    (by decide +kernel) rfl (by decide +kernel)⟩

end Call

end OrderMatcher

end ActixPura
