import ActixPura.ExecutionTotals

/-!
# What becomes of the rest of an incoming order

After its loops `match_order` reads the order again: a limit order that is active with quantity left
rests, an order of another type is cancelled and reported. What it reads is the filled quantity that
every further fill doubles, so the rest of a call with several fills is too small, and the call may
take it for nothing. A limit order without a positive price enters the index and no level.

`Disposed` is the purpose of that code and `SettlesRest` the exact condition on the order and the
book before the call under which it is met.
-/

namespace ActixPura

open OrderBook

namespace OrderMatcher

structure WhollyExecuted (o : Order) (out : Outcome) : Prop where
  total : totalExecuted out.result.executions = o.quantity
  status : out.order.status = .filled
  unindexed : out.book.ordersById[o.orderId]? = none
  unlisted : ∀ side k r, (out.book.levels side).Holds k r → r.orderId ≠ o.orderId

/-- The order waits in the level of its price with what was not executed. -/
structure RestsInLevel (o : Order) (out : Outcome) : Prop where
  limit : o.orderType = .limit
  part : totalExecuted out.result.executions < o.quantity
  waits : ∃ r, (out.book.levels o.side).Holds o.priceKey r ∧ r.orderId = o.orderId ∧
    r.remainingQuantity = o.quantity - totalExecuted out.result.executions

structure CancelledAndReported (o : Order) (out : Outcome) : Prop where
  notLimit : o.orderType ≠ .limit
  part : totalExecuted out.result.executions < o.quantity
  status : out.order.status = .cancelled
  reported : out.order ∈ out.result.updatedOrders

/-- Exactly one of the three ends of an order. -/
def Disposed (o : Order) (out : Outcome) : Prop :=
  (WhollyExecuted o out ∧ ¬ RestsInLevel o out ∧ ¬ CancelledAndReported o out) ∨
    (¬ WhollyExecuted o out ∧ RestsInLevel o out ∧ ¬ CancelledAndReported o out) ∨
    (¬ WhollyExecuted o out ∧ ¬ RestsInLevel o out ∧ CancelledAndReported o out)

theorem disposed_iff {o : Order} {out : Outcome} : Disposed o out ↔
    WhollyExecuted o out ∨ RestsInLevel o out ∨ CancelledAndReported o out := by
  have hab : WhollyExecuted o out → ¬ RestsInLevel o out := fun ha hb => hb.part.ne ha.total
  have hac : WhollyExecuted o out → ¬ CancelledAndReported o out := fun ha hc => hc.part.ne ha.total
  have hbc : RestsInLevel o out → ¬ CancelledAndReported o out := fun hb hc => hc.notLimit hb.limit
  unfold Disposed
  tauto

/-- The filled quantity of an order that took these orders whole: each fill but the last is counted
twice as often as the next. -/
def doubledFill : List Order → ℚ
  | [] => 0
  | c :: cs => 2 ^ cs.length * c.remainingQuantity + doubledFill cs

/-- The whole quantity can be executed, or the rest is read correctly: a limit order has a positive
price and at most one candidate, a market order has quantity left by the doubled count. -/
def SettlesRest (b : OrderBook) (o : Order) : Prop :=
  o.quantity ≤ totalRemaining (candidates b o) ∨
    match o.orderType with
    | .limit => o.hasPrice = true ∧ (candidates b o).length ≤ 1
    | .market => doubledFill (candidates b o) < o.quantity
    | _ => True

section Doubling

variable {env : Env} {taker : OrderSide} {s t : MatchState} {l : List Order}

theorem Visits.filled_of_open (hv : Visits env taker s l t) (hopen : 0 < t.remainingQty) :
    t.order.filledQuantity = 2 ^ l.length * s.order.filledQuantity + doubledFill l := by
  induction hv with
  | stop s => simp [doubledFill]
  | @visit s t c l price _ hv ih =>
      have hfirst := hv.open_start hopen
      rw [matchCandidate_remainingQty] at hfirst
      rw [ih hopen, matchCandidate_filledQuantity, matchQuantity_eq_remaining hfirst,
        List.length_cons, doubledFill, pow_succ]
      ring

theorem Visits.active_of_open (hv : Visits env taker s l t) (hs : s.order.isActive = true)
    (hopen : 0 < t.remainingQty) : t.order.isActive = true := by
  cases hact : t.order.isActive with
  | true => rfl
  | false => exact absurd (hv.inactive_done hs hact) (not_le.mpr hopen)

theorem Visits.filled_of_done (hv : Visits env taker s l t) (hs : 0 < s.remainingQty)
    (hdone : t.remainingQty ≤ 0) : t.order.status = .filled := by
  induction hv with
  | stop s => exact absurd hs (not_lt.mpr hdone)
  | @visit s t c l price _ hv ih =>
      by_cases hnext : 0 < (matchCandidate env taker price s c).remainingQty
      · exact ih hnext hdone
      · cases hv with
        | stop => rw [matchCandidate_status, if_pos hdone]
        | visit price' hr _ => exact absurd hr hnext

theorem totalRemaining_le_doubledFill (h : ∀ c ∈ l, 0 < c.remainingQuantity) :
    totalRemaining l ≤ doubledFill l := by
  induction l with
  | nil => exact le_rfl
  | cons c l ih =>
      have hrest := ih fun d hd => h d (List.mem_cons_of_mem _ hd)
      have hpow : (1 : ℚ) ≤ 2 ^ l.length := one_le_pow₀ (by norm_num)
      have hc := h c List.mem_cons_self
      rw [totalRemaining_cons, doubledFill]
      nlinarith

/-- The doubled count is right only for a single fill. -/
theorem doubledFill_eq_total_iff (h : ∀ c ∈ l, 0 < c.remainingQuantity) :
    doubledFill l = totalRemaining l ↔ l.length ≤ 1 := by
  match l, h with
  | [], _ => simp [doubledFill]
  | [c], _ => simp [doubledFill]
  | c :: d :: l, h =>
      have hrest := totalRemaining_le_doubledFill (l := d :: l)
        fun e he => h e (List.mem_cons_of_mem _ he)
      have hpow : (1 : ℚ) ≤ 2 ^ l.length := one_le_pow₀ (by norm_num)
      have hc := h c List.mem_cons_self
      have hlt : totalRemaining (c :: d :: l) < doubledFill (c :: d :: l) := by
        rw [totalRemaining_cons, doubledFill, List.length_cons, pow_succ]
        nlinarith
      refine iff_of_false hlt.ne' ?_
      simp only [List.length_cons]
      omega

end Doubling

/-- What waits under the id of a limit order after its call. -/
theorem holds_placeRemainder {env : Env} {b : OrderBook} {o r : Order} {t : MatchState}
    (ht : Taking b o t) (hactive : t.order.isActive = true) (hlimit : o.orderType = .limit)
    (hsymbol : o.symbol = b.symbol) (hid : r.orderId = o.orderId) :
    ((placeRemainder env t).book.levels o.side).Holds o.priceKey r ↔
      0 < t.order.remainingQuantity ∧ o.hasPrice = true ∧ r = t.order := by
  have hnone : ¬ (t.book.levels o.side).Holds o.priceKey r := by
    intro hr
    have hidx := (ht.live.coherent.indexed hr).1
    rw [hid, ht.fresh] at hidx
    cases hidx
  by_cases hopen : 0 < t.order.remainingQuantity
  · have haccepts : t.book.accepts t.order = true :=
      accepts_iff.mpr ⟨by rw [ht.orderSymbol, ht.bookSymbol, hsymbol], hactive⟩
    have hprice : t.order.hasPrice = o.hasPrice := by
      rw [Order.hasPrice, Order.hasPrice, ht.orderPrice]
    have hkey : t.order.priceKey = o.priceKey := by
      rw [Order.priceKey, Order.priceKey, ht.orderPrice]
    rw [placeRemainder, if_pos ⟨hactive, hopen⟩, if_pos (ht.orderType.trans hlimit),
      holds_addOrder haccepts, or_iff_right hnone]
    simp only [hopen, ht.side, hprice, hkey, true_and]
  · rw [placeRemainder, if_neg (fun h => hopen h.2)]
    exact iff_of_false hnone fun h => hopen h.1

section Call

variable (env : Env) {fuel : ℕ} {b : OrderBook} {o : Order} (hb : Live b)
  (hact : o.isActive = true) (hfresh : b.ordersById[o.orderId]? = none)
  (hfill : o.filledQuantity = 0) (hqty : 0 < o.quantity) (hfuel : restingCount b < fuel)

include hb hact hfresh hfill hqty hfuel

theorem executed_matchOrderWith :
    totalExecuted (matchOrderWith fuel env b o).result.executions =
      min o.quantity (totalRemaining (candidates b o)) := by
  rw [matchOrderWith_executions fuel env b hact, totalRemaining_candidates hb.coherent]
  exact (complete_matchByType env hb hact hfresh hfill hqty hfuel).total

omit hfresh in
theorem remaining_matchByType : (matchByType fuel env b o).remainingQty =
    o.quantity - min o.quantity (totalRemaining (candidates b o)) := by
  have hrem : o.remainingQuantity = o.quantity := by rw [Order.remainingQuantity, hfill, sub_zero]
  have h := matchByType_remaining env hb hact (hrem ▸ hqty.le) hfuel
  rwa [hrem] at h

theorem whollyExecuted_of_le (hfull : o.quantity ≤ totalRemaining (candidates b o)) :
    WhollyExecuted o (matchOrderWith fuel env b o) := by
  have htotal := executed_matchOrderWith env hb hact hfresh hfill hqty hfuel
  have hleft := remaining_matchByType env hb hact hfill hqty hfuel
  rw [min_eq_left hfull] at htotal hleft
  have ht := taking_matchByType env fuel hb hfresh hfill.ge
  obtain ⟨l, rest, -, hv, -⟩ := visits_exhaust env hb hact hfuel
  have hopen : 0 < (start b o).remainingQty := by
    change 0 < o.quantity - o.filledQuantity
    linarith
  have hstatus := hv.filled_of_done hopen (by linarith)
  have hout : matchOrderWith fuel env b o = ⟨(matchByType fuel env b o).book,
      (matchByType fuel env b o).order, (matchByType fuel env b o).result⟩ := by
    rw [matchOrderWith, if_pos hact, placeRemainder, if_neg]
    simp [Order.isActive, hstatus]
  refine ⟨htotal, ?_, ?_, ?_⟩
  · rw [hout]
    exact hstatus
  · rw [hout]
    exact ht.fresh
  · rw [hout]
    intro side k r hr heq
    have hidx := (ht.live.coherent.indexed hr).1
    rw [heq, ht.fresh] at hidx
    cases hidx

/-- An order that cannot be executed whole has taken every candidate and is still active. -/
theorem open_after_matchByType (hpart : totalRemaining (candidates b o) < o.quantity) :
    (matchByType fuel env b o).order.isActive = true ∧
      (matchByType fuel env b o).order.remainingQuantity =
        o.quantity - doubledFill (candidates b o) := by
  have hleft := remaining_matchByType env hb hact hfill hqty hfuel
  rw [min_eq_right hpart.le] at hleft
  have hopen : 0 < (matchByType fuel env b o).remainingQty := by linarith
  obtain ⟨l, rest, hsplit, hv, hend⟩ := visits_exhaust env hb hact hfuel
  rw [hend.resolve_right (not_le.mpr hopen), List.append_nil] at hsplit
  refine ⟨hv.active_of_open hact hopen, ?_⟩
  rw [Order.remainingQuantity, (taking_matchByType env fuel hb hfresh hfill.ge).quantity,
    hv.filled_of_open hopen, hsplit]
  change _ - (2 ^ l.length * o.filledQuantity + _) = _
  rw [hfill, mul_zero, zero_add]

theorem restsInLevel_iff (hsymbol : o.symbol = b.symbol) (hlimit : o.orderType = .limit)
    (hpart : totalRemaining (candidates b o) < o.quantity) :
    RestsInLevel o (matchOrderWith fuel env b o) ↔
      o.hasPrice = true ∧ (candidates b o).length ≤ 1 := by
  have htotal := executed_matchOrderWith env hb hact hfresh hfill hqty hfuel
  rw [min_eq_right hpart.le] at htotal
  obtain ⟨hactive, hrest⟩ := open_after_matchByType env hb hact hfresh hfill hqty hfuel hpart
  have ht := taking_matchByType env fuel hb hfresh hfill.ge
  have hbook : (matchOrderWith fuel env b o).book =
      (placeRemainder env (matchByType fuel env b o)).book := by rw [matchOrderWith, if_pos hact]
  rw [← doubledFill_eq_total_iff (remaining_of_mem_candidates (o := o) hb)]
  constructor
  · rintro ⟨-, -, r, hr, hid, hrem⟩
    rw [hbook, holds_placeRemainder ht hactive hlimit hsymbol hid] at hr
    obtain ⟨-, hprice, rfl⟩ := hr
    rw [hrest, htotal] at hrem
    exact ⟨hprice, by linarith⟩
  · rintro ⟨hprice, hcount⟩
    refine ⟨hlimit, htotal ▸ hpart, _, ?_, ht.orderId, by rw [hrest, htotal, hcount]⟩
    rw [hbook, holds_placeRemainder ht hactive hlimit hsymbol ht.orderId]
    exact ⟨by rw [hrest, hcount]; linarith, hprice, rfl⟩

theorem cancelledAndReported_iff (hlimit : o.orderType ≠ .limit)
    (hpart : totalRemaining (candidates b o) < o.quantity) :
    CancelledAndReported o (matchOrderWith fuel env b o) ↔
      doubledFill (candidates b o) < o.quantity := by
  have htotal := executed_matchOrderWith env hb hact hfresh hfill hqty hfuel
  rw [min_eq_right hpart.le] at htotal
  obtain ⟨hactive, hrest⟩ := open_after_matchByType env hb hact hfresh hfill hqty hfuel hpart
  have ht := taking_matchByType env fuel hb hfresh hfill.ge
  have htype : (matchByType fuel env b o).order.orderType ≠ .limit := ht.orderType ▸ hlimit
  have hout : matchOrderWith fuel env b o = placeRemainder env (matchByType fuel env b o) := by
    rw [matchOrderWith, if_pos hact]
  constructor
  · rintro ⟨-, -, hstatus, -⟩
    by_contra hle
    have hnone : ¬ 0 < (matchByType fuel env b o).order.remainingQuantity := by
      rw [hrest]
      linarith
    rw [hout, placeRemainder, if_neg (fun h => hnone h.2)] at hstatus
    rw [Order.isActive, hstatus] at hactive
    cases hactive
  · intro hlt
    have hopen : 0 < (matchByType fuel env b o).order.remainingQuantity := by
      rw [hrest]
      linarith
    refine ⟨hlimit, htotal ▸ hpart, ?_, ?_⟩
    · rw [hout, placeRemainder, if_pos ⟨hactive, hopen⟩, if_neg htype]
      rfl
    · rw [hout, placeRemainder, if_pos ⟨hactive, hopen⟩, if_neg htype]
      simp [MatchResult.addUpdatedOrder]

end Call

theorem candidates_unsupported (b : OrderBook) {o : Order} (hm : o.orderType ≠ .market)
    (hl : o.orderType ≠ .limit) : candidates b o = [] := by
  cases ht : o.orderType with
  | market => exact absurd ht hm
  | limit => exact absurd ht hl
  | stopLoss | stopLimit | immediateOrCancel | fillOrKill => simp only [candidates, ht]

/-- Exactly when the rest of an order ends in one of the three ways. -/
theorem residual_disposed_iff (env : Env) (b : OrderBook) (o : Order) (hb : Live b)
    (hact : o.isActive = true) (hfresh : b.ordersById[o.orderId]? = none)
    (hsymbol : o.symbol = b.symbol) (hfill : o.filledQuantity = 0) (hqty : 0 < o.quantity) :
    Disposed o (matchOrder env b o) ↔ SettlesRest b o := by
  have hfuel := Nat.lt_succ_self (restingCount b)
  have htotal := executed_matchOrderWith env hb hact hfresh hfill hqty hfuel
  change totalExecuted (matchOrder env b o).result.executions = _ at htotal
  rw [disposed_iff, SettlesRest]
  by_cases hfull : o.quantity ≤ totalRemaining (candidates b o)
  · have hdone := whollyExecuted_of_le env hb hact hfresh hfill hqty hfuel hfull
    exact iff_of_true (Or.inl hdone) (Or.inl hfull)
  · have hpart := not_le.mp hfull
    rw [min_eq_right hpart.le] at htotal
    have hnot : ¬ WhollyExecuted o (matchOrder env b o) := fun h =>
      hpart.ne (htotal.symm.trans h.total)
    rw [or_iff_right hnot, or_iff_right hfull]
    by_cases hl : o.orderType = .limit
    · have hrests := restsInLevel_iff env hb hact hfresh hfill hqty hfuel hsymbol hl hpart
      rw [or_iff_left (fun h => h.notLimit hl)]
      simp only [hl]
      exact hrests
    · have hcancel := cancelledAndReported_iff env hb hact hfresh hfill hqty hfuel hl hpart
      rw [or_iff_right (fun h => hl h.limit)]
      refine hcancel.trans ?_
      by_cases hm : o.orderType = .market
      · simp only [hm]
      · rw [candidates_unsupported b hm hl]
        cases ht : o.orderType with
        | market => exact absurd ht hm
        | limit => exact absurd ht hl
        | stopLoss | stopLimit | immediateOrCancel | fillOrKill => simp [doubledFill, hqty]

/-- A limit sell order for 15 takes two bids of 5. By the doubled count that is all of it, so the
last 5 neither rest nor end in a report. -/
theorem residual_lost : ¬ ∀ (env : Env) (b : OrderBook) (o : Order), Sound b →
    o.isActive = true → b.ordersById[o.orderId]? = none → o.symbol = b.symbol →
    o.filledQuantity = 0 → 0 < o.quantity → Disposed o (matchOrder env b o) := by
  intro hall
  let env : Env := ⟨fun n => n, fun n => toString n⟩
  let o : Order := Order.fromRequest "" 0 ⟨some "s1", "AAPL", .sell, some 90, 15, "acc", .limit⟩
  have h := hall env twoBids o sound_twoBids rfl (by decide +kernel) (by decide +kernel) rfl
    (by decide +kernel)
  rcases disposed_iff.mp h with hdone | hrests | hcancelled
  · have htotal : totalExecuted (matchOrder env twoBids o).result.executions = 10 := by
      decide +kernel
    rw [hdone.total] at htotal
    exact absurd htotal (by decide +kernel)
  · obtain ⟨r, ⟨q, hq, -⟩, -⟩ := hrests.waits
    have hnone : ((matchOrder env twoBids o).book.levels o.side)[o.priceKey]? = none := by
      decide +kernel
    rw [hnone] at hq
    cases hq
  · exact hcancelled.notLimit rfl

/-- A limit sell order for 8 at 105 takes one bid and rests with the other 3. -/
theorem residual_disposed_rest :
    let env : Env := ⟨fun n => n, fun n => toString n⟩
    let o := Order.fromRequest "" 0 ⟨some "s1", "AAPL", .sell, some 105, 8, "acc", .limit⟩
    totalRemaining (candidates twoBids o) = 5 ∧ Disposed o (matchOrder env twoBids o) := by
  intro env o
  refine ⟨by decide +kernel, ?_⟩
  apply (residual_disposed_iff env twoBids o sound_twoBids.live rfl (by decide +kernel)
    (by decide +kernel) rfl (by decide +kernel)).mpr
  exact Or.inr ⟨by decide +kernel, by decide +kernel⟩

end OrderMatcher

end ActixPura
