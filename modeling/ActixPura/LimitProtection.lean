import ActixPura.SellsTaken

/-!
# Limit prices and the prices of executions

Orders are compared by price keys, which drop what is below a hundredth, and executed at exact
prices. A limit buy order takes a sell order of its own key at that order's price, which may be
above the limit. A market buy order and `continuous_match` execute at the price of the sell level,
which is below the limit of a sell order with more decimals. Both conditions are on the book before
the call: on the candidates that an order gets to, and on the sell orders that the rounds take.
-/

namespace ActixPura

open OrderBook

theorem asI64_le_of_nonneg {x : ℚ} (h : 0 ≤ x) : (asI64 x : ℚ) ≤ x := by
  have hnum : trunc x = ⌊x⌋ := by
    rw [trunc, Rat.floor_def', Int.tdiv_eq_ediv_of_nonneg (Rat.num_nonneg.mpr h)]
  have hfloor : (0 : ℤ) ≤ ⌊x⌋ := Int.floor_nonneg.mpr h
  have hle : asI64 x ≤ ⌊x⌋ := by
    rw [asI64, hnum]
    omega
  exact (Int.cast_le.mpr hle).trans (Int.floor_le x)

namespace OrderMatcher

/-- A price within the limit of an order. Only limit orders with a positive price have one. -/
def KeepsLimit (side : OrderSide) (price : ℚ) (r : Order) : Prop :=
  r.orderType = .limit → ∀ p, r.price = some p → 0 < p →
    match side with
    | .buy => price ≤ p
    | .sell => p ≤ price

/-- The execution keeps the limits of the orders it names, among those that can be meant. -/
structure Protects (buyers sellers : Order → Prop) (e : Execution) : Prop where
  buyer : ∀ r, buyers r → e.orderId = r.orderId → KeepsLimit .buy e.price r
  seller : ∀ r, sellers r → e.counterOrderId = some r.orderId → KeepsLimit .sell e.price r

/-- The orders of a side in a call of `match_order`: the incoming order on its own side, the waiting
orders on the other. -/
def Party (b : OrderBook) (o : Order) (side : OrderSide) (r : Order) : Prop :=
  if side = o.side then r = o else Waiting b r

/-- The price is the price of its level: a whole number of hundredths in the range of keys. -/
def OnGrid (r : Order) : Prop := r.price.getD 0 = (r.priceKey : ℚ) / 100

instance decidableOnGrid (r : Order) : Decidable (OnGrid r) :=
  inferInstanceAs (Decidable (_ = _))

/-- A match of `o` with `c` keeps the limits of both. -/
def WithinLimits (o c : Order) : Prop :=
  match o.orderType, o.side with
  | .market, .buy => c.orderType = .limit → OnGrid c
  | .limit, .buy => ∀ p, o.price = some p → 0 < p → c.price.getD 0 ≤ p
  | .limit, .sell => ∀ p, o.price = some p → 0 < p → p ≤ c.price.getD 0
  | _, _ => True

section Prices

variable {b : OrderBook} {c : Order} {side : OrderSide} {k : ℤ}

/-- A waiting order is never priced below its level. -/
theorem level_price_le (hb : b.Coherent) (hc : (b.levels side).Holds k c) :
    (c.priceKey : ℚ) / 100 ≤ c.price.getD 0 := by
  obtain ⟨p, hp, hpos⟩ := Order.hasPrice_iff.mp (hb.indexed hc).2.2.1
  have hle := asI64_le_of_nonneg (x := p * 100) (by linarith)
  rw [Order.priceKey, hp, Option.getD_some]
  linarith

theorem keepsLimit_iff (hb : b.Coherent) (hc : (b.levels side).Holds k c) (s : OrderSide)
    (price : ℚ) : KeepsLimit s price c ↔ (c.orderType = .limit →
      match s with
      | .buy => price ≤ c.price.getD 0
      | .sell => c.price.getD 0 ≤ price) := by
  obtain ⟨p, hp, hpos⟩ := Order.hasPrice_iff.mp (hb.indexed hc).2.2.1
  cases s <;> simp [KeepsLimit, hp, hpos]

theorem onGrid_iff (hb : b.Coherent) (hc : (b.levels side).Holds k c) :
    OnGrid c ↔ c.price.getD 0 ≤ (c.priceKey : ℚ) / 100 :=
  ⟨le_of_eq, fun h => le_antisymm h (level_price_le hb hc)⟩

end Prices

section Taker

variable {env : Env} {b : OrderBook} {o c : Order}

/-- A record keeps the limits exactly when its price keeps those of its two orders. -/
theorem protects_record_iff (hb : b.Coherent)
    (hc : (b.levels o.side.opposite).Holds c.priceKey c) {e : Execution} (he : Records env o c e) :
    Protects (Party b o .buy) (Party b o .sell) e ↔
      KeepsLimit o.side (execPrice o c) o ∧ KeepsLimit o.side.opposite (execPrice o c) c := by
  have hwait : Waiting b c := (hb.indexed hc).1
  obtain ⟨n, qty, rfl⟩ := he
  cases hs : o.side with
  | buy =>
      constructor
      · rintro ⟨hbuyer, hseller⟩
        exact ⟨hbuyer o (by simp [Party, hs]) rfl, hseller c (by simpa [Party, hs] using hwait) rfl⟩
      · rintro ⟨hown, hother⟩
        refine ⟨fun r hr _ => ?_, fun r hr hid => ?_⟩
        · obtain rfl : r = o := by simpa [Party, hs] using hr
          exact hown
        · obtain rfl : r = c := waiting_eq hb hc (by simpa [Party, hs] using hr)
            (Option.some.inj hid).symm
          exact hother
  | sell =>
      constructor
      · rintro ⟨hbuyer, hseller⟩
        exact ⟨hseller o (by simp [Party, hs]) rfl, hbuyer c (by simpa [Party, hs] using hwait) rfl⟩
      · rintro ⟨hown, hother⟩
        refine ⟨fun r hr hid => ?_, fun r hr _ => ?_⟩
        · obtain rfl : r = c := waiting_eq hb hc (by simpa [Party, hs] using hr) hid.symm
          exact hother
        · obtain rfl : r = o := by simpa [Party, hs] using hr
          exact hown

theorem withinLimits_iff (hb : b.Coherent) (hc : (b.levels o.side.opposite).Holds c.priceKey c)
    (ht : o.orderType = .market ∨ o.orderType = .limit) : WithinLimits o c ↔
      KeepsLimit o.side (execPrice o c) o ∧ KeepsLimit o.side.opposite (execPrice o c) c := by
  have hlevel := level_price_le hb hc
  rw [keepsLimit_iff hb hc]
  rcases ht with ht | ht
  · cases hs : o.side with
    | buy =>
        simp [WithinLimits, ht, hs, KeepsLimit, execPrice, OrderSide.opposite, onGrid_iff hb hc]
    | sell => simp [WithinLimits, ht, hs, KeepsLimit, execPrice, OrderSide.opposite, hlevel]
  · cases hs : o.side with
    | buy => simp [WithinLimits, ht, hs, KeepsLimit, execPrice, OrderSide.opposite]
    | sell => simp [WithinLimits, ht, hs, KeepsLimit, execPrice, OrderSide.opposite]

end Taker

section Call

variable {env : Env} {b : OrderBook} {o : Order}

theorem forall_protects_iff (hb : b.Coherent) (ht : o.orderType = .market ∨ o.orderType = .limit)
    {es : List Execution} {l : List Order} (h : List.Forall₂ (Records env o) l es)
    (hl : ∀ c ∈ l, (b.levels o.side.opposite).Holds c.priceKey c) :
    (∀ e ∈ es, Protects (Party b o .buy) (Party b o .sell) e) ↔ ∀ c ∈ l, WithinLimits o c := by
  induction h with
  | nil => simp
  | @cons c e l es he _ ih =>
      rw [List.forall_mem_cons] at hl
      rw [List.forall_mem_cons, List.forall_mem_cons, ih hl.2, protects_record_iff hb hl.1 he,
        withinLimits_iff hb hl.1 ht]

theorem matchOrder_protects_iff (env : Env) (hb : Live b) (o : Order) :
    (∀ e ∈ (matchOrder env b o).result.executions, Protects (Party b o .buy) (Party b o .sell) e) ↔
      (o.isActive = true → Reached (WithinLimits o) o.remainingQuantity (candidates b o)) := by
  cases hact : o.isActive with
  | false => simp [matchOrder, matchOrderWith, hact, MatchResult.new]
  | true =>
      obtain ⟨l, hheld, hreached, hrecords⟩ := executions_of_reached env hb hact
      rw [hreached, imp_iff_right rfl]
      by_cases ht : o.orderType = .market ∨ o.orderType = .limit
      · exact forall_protects_iff hb.coherent ht hrecords hheld
      · rw [not_or] at ht
        have hnil : ∀ c ∈ l, False := by
          rw [← hreached fun _ => False, candidates_unsupported b ht.1 ht.2]
          trivial
        obtain rfl := List.eq_nil_iff_forall_not_mem.mpr hnil
        rw [List.forall₂_nil_left_iff.mp hrecords]
        simp

end Call

section Continuous

variable {env : Env} {b : OrderBook}

theorem protects_pair_iff (hb : b.Coherent) {buy sell : Order} {e : Execution}
    (h : PairRecord env b buy sell e) :
    Protects (Waiting b) (Waiting b) e ↔ (sell.orderType = .limit → OnGrid sell) := by
  obtain ⟨hbuy, hsell, hcross, n, qty, -, rfl⟩ := h
  have hbelow : (sell.priceKey : ℚ) / 100 ≤ buy.price.getD 0 := by
    have hcast : (sell.priceKey : ℚ) ≤ buy.priceKey := by exact_mod_cast hcross
    linarith [level_price_le hb hbuy]
  rw [onGrid_iff hb hsell]
  constructor
  · intro h
    exact (keepsLimit_iff hb hsell .sell _).mp (h.seller sell (hb.indexed hsell).1 rfl)
  · intro h
    refine ⟨fun r hr hid => ?_, fun r hr hid => ?_⟩
    · obtain rfl := waiting_eq hb hbuy hr hid.symm
      exact (keepsLimit_iff hb hbuy .buy _).mpr fun _ => hbelow
    · obtain rfl := waiting_eq hb hsell hr (Option.some.inj hid).symm
      exact (keepsLimit_iff hb hsell .sell _).mpr h

theorem onGrid_congr {c c₀ : Order} (h : c.terms = c₀.terms) :
    (c.orderType = .limit → OnGrid c) ↔ (c₀.orderType = .limit → OnGrid c₀) := by
  rw [OnGrid, OnGrid, Order.orderType_of_terms h, Order.price_of_terms h,
    Order.priceKey_of_terms h]

theorem forall_protects_sold_iff (hb : b.Coherent) {l : List Order} {es : List Execution}
    (h : List.Forall₂ (Sold env b) l es) :
    (∀ e ∈ es, Protects (Waiting b) (Waiting b) e) ↔
      ∀ c ∈ l, c.orderType = .limit → OnGrid c := by
  induction h with
  | nil => simp
  | @cons c e l es he _ ih =>
      obtain ⟨buy, sell, hterms, hrecord⟩ := he
      rw [List.forall_mem_cons, List.forall_mem_cons, ih, protects_pair_iff hb hrecord,
        onGrid_congr hterms]

theorem continuousMatch_protects_iff (env : Env) (hb : Live b) :
    (∀ e ∈ (continuousMatch env b).2.executions, Protects (Waiting b) (Waiting b) e) ↔
      ∀ c ∈ sellsTaken b, c.orderType = .limit → OnGrid c :=
  forall_protects_sold_iff hb.coherent (executions_sellsTaken env hb)

end Continuous

/-- Exactly when the executions of a call keep the limits of the orders they name. -/
theorem limit_protection_iff (env : Env) (b : OrderBook) (hb : Live b) :
    (∀ o, (∀ e ∈ (matchOrder env b o).result.executions,
        Protects (Party b o .buy) (Party b o .sell) e) ↔
      (o.isActive = true → Reached (WithinLimits o) o.remainingQuantity (candidates b o))) ∧
    ((∀ e ∈ (continuousMatch env b).2.executions, Protects (Waiting b) (Waiting b) e) ↔
      ∀ c ∈ sellsTaken b, c.orderType = .limit → OnGrid c) :=
  ⟨fun o => matchOrder_protects_iff env hb o, continuousMatch_protects_iff env hb⟩

/-- A sell order at 100.009, on the level of 100. -/
def offGridAsk : OrderBook :=
  ((OrderBook.new "AAPL").addOrder
    (Order.fromRequest "" 0 ⟨some "s1", "AAPL", .sell, some (100009 / 1000), 5, "acc", .limit⟩)).1

theorem sound_offGridAsk : Sound offGridAsk :=
  (Sound.new "AAPL").addOrder (by decide +kernel) (by decide +kernel)

/-- A buy order limited to 100.001 takes it at 100.009. -/
theorem limit_exceeded : ¬ ∀ (env : Env) (b : OrderBook), Sound b →
    (∀ o, ∀ e ∈ (matchOrder env b o).result.executions,
      Protects (Party b o .buy) (Party b o .sell) e) ∧
    ∀ e ∈ (continuousMatch env b).2.executions, Protects (Waiting b) (Waiting b) e := by
  intro hall
  let env : Env := ⟨fun n => n, fun n => toString n⟩
  let o : Order :=
    Order.fromRequest "" 0 ⟨some "b1", "AAPL", .buy, some (100001 / 1000), 5, "acc", .limit⟩
  let c : Order :=
    Order.fromRequest "" 0 ⟨some "s1", "AAPL", .sell, some (100009 / 1000), 5, "acc", .limit⟩
  have hmade : (matchOrder env offGridAsk o).result.executions =
      [takerRecord env 0 .buy o c (100009 / 1000) 5] := by decide +kernel
  have h := (hall env offGridAsk sound_offGridAsk).1 o _ (hmade ▸ List.mem_singleton_self _)
  have hle := h.buyer o rfl rfl rfl (100001 / 1000) rfl (by norm_num)
  exact absurd hle (by decide +kernel)

/-- A market buy order for 8, and the waiting buy order, take two sell orders with whole
hundredths. -/
theorem limits_kept_crossedBook :
    let env : Env := ⟨fun n => n, fun n => toString n⟩
    let o := Order.fromRequest "" 0 ⟨some "b2", "AAPL", .buy, none, 8, "acc", .market⟩
    (matchOrder env crossedBook o).result.executions.map Execution.price = [99, 100] ∧
      (∀ e ∈ (matchOrder env crossedBook o).result.executions,
        Protects (Party crossedBook o .buy) (Party crossedBook o .sell) e) ∧
      (sellsTaken crossedBook).map Order.orderId = ["s1", "s2"] ∧
      ∀ e ∈ (continuousMatch env crossedBook).2.executions,
        Protects (Waiting crossedBook) (Waiting crossedBook) e := by
  intro env o
  have hboth := limit_protection_iff env crossedBook sound_crossedBook.live
  refine ⟨by decide +kernel, (hboth.1 o).mpr ?_, by decide +kernel, hboth.2.mpr ?_⟩
  · intro _
    let ask (id : String) (price : ℚ) :=
      Order.fromRequest "" 0 ⟨some id, "AAPL", .sell, some price, 5, "acc", .limit⟩
    have hcand : candidates crossedBook o = [ask "s1" 99, ask "s2" 100] := by decide +kernel
    rw [hcand]
    exact fun _ => ⟨fun _ => by decide +kernel, fun _ => ⟨fun _ => by decide +kernel, trivial⟩⟩
  · decide +kernel

end OrderMatcher

end ActixPura
