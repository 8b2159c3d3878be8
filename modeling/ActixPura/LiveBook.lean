import ActixPura.MatchingRules

/-!
# Live books and the calls that keep them

A book is live when it is coherent and each of its orders is active and satisfies
`0 ≤ filled_quantity < quantity`. Insertions, removals and both matching entry points keep a book
live, although a match may overshoot `filled_quantity`: an order whose computed remainder is not
positive never returns to the book.
-/

namespace ActixPura

def Order.Resting (o : Order) : Prop :=
  o.isActive = true ∧ 0 ≤ o.filledQuantity ∧ o.filledQuantity < o.quantity

theorem Order.Resting.remaining_pos {o : Order} (h : o.Resting) : 0 < o.remainingQuantity :=
  sub_pos.mpr h.2.2

namespace OrderBook

structure Live (b : OrderBook) : Prop where
  coherent : b.Coherent
  resting : ∀ {id : String} {o : Order}, b.ordersById[id]? = some o → o.Resting

namespace Live

variable {b : OrderBook} {o : Order}

theorem new (symbol : String) : Live (OrderBook.new symbol) where
  coherent := coherent_new symbol
  resting h := by simp [OrderBook.new] at h

theorem resting_of_holds (h : Live b) {side : OrderSide} {k : ℤ}
    (ho : (b.levels side).Holds k o) : o.Resting :=
  h.resting (h.coherent.indexed ho).1

theorem addOrder (h : Live b) (hfresh : b.ordersById[o.orderId]? = none)
    (hfill : 0 ≤ o.filledQuantity ∧ o.filledQuantity < o.quantity) :
    Live (b.addOrder o).1 := by
  cases ha : b.accepts o with
  | false => rwa [addOrder_rejected ha]
  | true =>
      refine ⟨h.coherent.addOrder hfresh, ?_⟩
      intro id e he
      rw [addOrder_lookup ha] at he
      split_ifs at he
      · rw [Option.some.injEq] at he
        exact he ▸ ⟨(accepts_iff.mp ha).2, hfill⟩
      · exact h.resting he

theorem removeOrder (h : Live b) (id : String) : Live (b.removeOrder id).1 := by
  refine ⟨h.coherent.removeOrder id, ?_⟩
  intro id' e he
  rw [removeOrder_lookup] at he
  split_ifs at he
  exact h.resting he

theorem reinsert (h : Live b) (hfresh : b.ordersById[o.orderId]? = none)
    (hfill : 0 ≤ o.filledQuantity) : Live (OrderMatcher.reinsert b o) := by
  rcases OrderMatcher.reinsert_cases b o with he | ⟨hr, he⟩
  · rwa [he]
  · rw [he]
    exact h.addOrder hfresh ⟨hfill, sub_pos.mp hr⟩

end Live

/-- A live book with orders of its own symbol only. -/
structure Sound (b : OrderBook) : Prop where
  coherent : b.Coherent
  resting : ∀ {id : String} {o : Order}, b.ordersById[id]? = some o → o.Resting
  symbol_eq : ∀ {id : String} {o : Order}, b.ordersById[id]? = some o → o.symbol = b.symbol

namespace Sound

variable {b : OrderBook} {o : Order}

theorem new (symbol : String) : Sound (OrderBook.new symbol) where
  coherent := coherent_new symbol
  resting h := by simp [OrderBook.new] at h
  symbol_eq h := by simp [OrderBook.new] at h

theorem live (h : Sound b) : Live b := ⟨h.coherent, h.resting⟩

theorem addOrder (h : Sound b) (hfresh : b.ordersById[o.orderId]? = none)
    (hfill : 0 ≤ o.filledQuantity ∧ o.filledQuantity < o.quantity) :
    Sound (b.addOrder o).1 := by
  cases ha : b.accepts o with
  | false => rwa [addOrder_rejected ha]
  | true =>
      have hlive := h.live.addOrder hfresh hfill
      refine ⟨hlive.coherent, hlive.resting, ?_⟩
      intro id e he
      rw [addOrder_lookup ha] at he
      rw [addOrder_symbol]
      split_ifs at he
      · rw [Option.some.injEq] at he
        exact he ▸ (accepts_iff.mp ha).1
      · exact h.symbol_eq he

end Sound

end OrderBook

namespace OrderMatcher

open OrderBook

variable {env : Env}

theorem filled_nonneg_of_fill {f q : ℚ} (hf : 0 ≤ f) (hq : 0 ≤ q) : 0 ≤ f + (f + q) := by
  linarith

section Taker

variable {taker : OrderSide} {price : ℚ} {s : MatchState} {c : Order}

theorem matchQuantity_pos (hc : c.Resting) (hr : 0 < s.remainingQty) : 0 < matchQuantity s c :=
  lt_min hr hc.remaining_pos

theorem live_matchCandidate (h : Live s.book) (hc : c.Resting) (hr : 0 < s.remainingQty) :
    Live (matchCandidate env taker price s c).book := by
  rw [matchCandidate_book]
  apply (h.removeOrder c.orderId).reinsert
  · simpa [filledCopy] using removed_lookup s.book c.orderId
  · simpa [filledCopy] using filled_nonneg_of_fill hc.2.1 (matchQuantity_pos hc hr).le

/-- What the matching loops keep about the incoming order `o` and the book `b` they started
with. -/
structure Taking (b : OrderBook) (o : Order) (s : MatchState) : Prop where
  live : Live s.book
  bookSymbol : s.book.symbol = b.symbol
  orderId : s.order.orderId = o.orderId
  orderType : s.order.orderType = o.orderType
  side : s.order.side = o.side
  orderPrice : s.order.price = o.price
  quantity : s.order.quantity = o.quantity
  orderSymbol : s.order.symbol = o.symbol
  fresh : s.book.ordersById[o.orderId]? = none
  filled_nonneg : 0 ≤ s.order.filledQuantity
  /-- Resting orders keep their side and price, and no id enters the book. -/
  origin : ∀ {id : String} {e : Order}, s.book.ordersById[id]? = some e →
    ∃ e₀, b.ordersById[id]? = some e₀ ∧ e.side = e₀.side ∧ e.price = e₀.price
  /-- Executions name the incoming order and priced orders of the book. -/
  named : ∀ {x : Execution} {id : String}, x ∈ s.result.executions → x.names id = true →
    id = o.orderId ∨ ∃ e₀, b.ordersById[id]? = some e₀ ∧ e₀.hasPrice = true
  reported : ∀ {u : Order}, u ∈ s.result.updatedOrders →
    ∃ e₀, b.ordersById[u.orderId]? = some e₀

theorem taking_start {b : OrderBook} {o : Order} (h : Live b)
    (hfresh : b.ordersById[o.orderId]? = none) (hfill : 0 ≤ o.filledQuantity) :
    Taking b o (start b o) where
  live := h
  bookSymbol := rfl
  orderId := rfl
  orderType := rfl
  side := rfl
  orderPrice := rfl
  quantity := rfl
  orderSymbol := rfl
  fresh := hfresh
  filled_nonneg := hfill
  origin he := ⟨_, he, rfl, rfl⟩
  named hx := by simp [start, MatchResult.new] at hx
  reported hu := by simp [start, MatchResult.new] at hu

theorem taking_matchCandidate {b : OrderBook} {o : Order} (h : Taking b o s)
    (hr : 0 < s.remainingQty) {side : OrderSide} (hc : (s.book.levels side).Holds c.priceKey c) :
    Taking b o (matchCandidate env taker price s c) := by
  have hrest := h.live.resting_of_holds hc
  obtain ⟨hidx, _, hprice, _⟩ := h.live.coherent.indexed hc
  obtain ⟨c₀, hc₀, hcs, hcp⟩ := h.origin hidx
  have hne : c.orderId ≠ o.orderId := by
    intro heq
    rw [heq, h.fresh] at hidx
    cases hidx
  have hfill : (matchCandidate env taker price s c).order.filledQuantity =
      s.order.filledQuantity + (s.order.filledQuantity + matchQuantity s c) := rfl
  refine ⟨live_matchCandidate h.live hrest hr, ?_, h.orderId, h.orderType, h.side,
    h.orderPrice, h.quantity, h.orderSymbol, ?_, ?_, ?_, ?_, ?_⟩
  · rw [matchCandidate_bookSymbol]
    exact h.bookSymbol
  · rw [matchCandidate_lookup_of_ne hne]
    exact h.fresh
  · rw [hfill]
    exact filled_nonneg_of_fill h.filled_nonneg (matchQuantity_pos hrest hr).le
  · intro id e he
    rcases matchCandidate_lookup he with ⟨_, he⟩ | ⟨rfl, rfl, _⟩
    · exact h.origin he
    · exact ⟨c₀, hc₀, by simpa [filledCopy] using hcs, by simpa [filledCopy] using hcp⟩
  · intro x id hx hn
    rw [matchCandidate_executions] at hx
    rcases List.mem_append.mp hx with hx | hx
    · exact h.named hx hn
    · rw [List.mem_singleton] at hx
      subst x
      rcases (takerRecord_names _ _ _ _ _ _ _ _).mp hn with rfl | rfl
      · exact Or.inl h.orderId
      · exact Or.inr ⟨c₀, hc₀, by simpa only [Order.hasPrice, ← hcp] using hprice⟩
  · intro u hu
    rw [matchCandidate_updatedOrders] at hu
    rcases List.mem_append.mp hu with hu | hu
    · exact h.reported hu
    · rw [List.mem_singleton] at hu
      subst u
      exact ⟨c₀, by simpa [filledCopy] using hc₀⟩

theorem taking_matchByType (env : Env) (fuel : ℕ) {b : OrderBook} {o : Order} (h : Live b)
    (hfresh : b.ordersById[o.orderId]? = none) (hfill : 0 ≤ o.filledQuantity) :
    Taking b o (matchByType fuel env b o) :=
  (matchByType_induction fuel h.coherent (taking_start h hfresh hfill)
    (fun _ _ _ hP hr _ hc => taking_matchCandidate hP hr hc)).2

end Taker

section Call

variable (env) (fuel : ℕ) {b : OrderBook} {o : Order} (h : Live b)
  (hfresh : b.ordersById[o.orderId]? = none) (hfill : 0 ≤ o.filledQuantity)

include h hfresh hfill

/-- What `match_order` leaves under an id of the book: an order that was there, possibly with a
new filled quantity, or the incoming order itself. -/
theorem matchOrderWith_lookup {id : String} {e : Order}
    (he : (matchOrderWith fuel env b o).book.ordersById[id]? = some e) :
    (∃ e₀, b.ordersById[id]? = some e₀ ∧ e.side = e₀.side ∧ e.price = e₀.price) ∨
      (id = o.orderId ∧ e = (matchByType fuel env b o).order) := by
  have ht := taking_matchByType env fuel h hfresh hfill
  rcases matchOrderWith_cases fuel env b o with
    ⟨_, heq⟩ | ⟨_, _, _, heq⟩ | ⟨_, _, _, heq⟩ | ⟨_, heq⟩
  · rw [heq] at he
    exact Or.inl ⟨e, he, rfl, rfl⟩
  · rw [heq] at he
    cases ha : (matchByType fuel env b o).book.accepts (matchByType fuel env b o).order with
    | false =>
        rw [addOrder_rejected ha] at he
        exact Or.inl (ht.origin he)
    | true =>
        rw [addOrder_lookup ha] at he
        split_ifs at he with hid
        · rw [Option.some.injEq] at he
          exact Or.inr ⟨hid ▸ ht.orderId, he.symm⟩
        · exact Or.inl (ht.origin he)
  · rw [heq] at he
    exact Or.inl (ht.origin he)
  · rw [heq] at he
    exact Or.inl (ht.origin he)

theorem live_matchOrderWith : Live (matchOrderWith fuel env b o).book := by
  have ht := taking_matchByType env fuel h hfresh hfill
  rcases matchOrderWith_cases fuel env b o with
    ⟨_, heq⟩ | ⟨_, hopen, _, heq⟩ | ⟨_, _, _, heq⟩ | ⟨_, heq⟩
  · rw [heq]
    exact h
  · rw [heq]
    exact ht.live.addOrder (by rw [ht.orderId]; exact ht.fresh)
      ⟨ht.filled_nonneg, sub_pos.mp hopen.2⟩
  · rw [heq]
    exact ht.live
  · rw [heq]
    exact ht.live

/-- The executions of `match_order` name the incoming order and priced orders of the book. -/
theorem matchOrderWith_named {x : Execution} {id : String}
    (hx : x ∈ (matchOrderWith fuel env b o).result.executions) (hn : x.names id = true) :
    id = o.orderId ∨ ∃ e₀, b.ordersById[id]? = some e₀ ∧ e₀.hasPrice = true := by
  cases hact : o.isActive with
  | false => simp [matchOrderWith, hact, MatchResult.new] at hx
  | true =>
      rw [matchOrderWith_executions fuel env b hact] at hx
      exact (taking_matchByType env fuel h hfresh hfill).named hx hn

theorem matchOrderWith_reported {u : Order}
    (hu : u ∈ (matchOrderWith fuel env b o).result.updatedOrders) :
    u.orderId = o.orderId ∨ ∃ e₀, b.ordersById[u.orderId]? = some e₀ := by
  have ht := taking_matchByType env fuel h hfresh hfill
  rcases matchOrderWith_cases fuel env b o with
    ⟨_, heq⟩ | ⟨_, _, _, heq⟩ | ⟨_, _, _, heq⟩ | ⟨_, heq⟩
  · rw [heq] at hu
    simp [MatchResult.new] at hu
  · rw [heq] at hu
    exact Or.inr (ht.reported hu)
  · rw [heq] at hu
    rcases List.mem_append.mp hu with hu | hu
    · exact Or.inr (ht.reported hu)
    · rw [List.mem_singleton.mp hu]
      exact Or.inl ht.orderId
  · rw [heq] at hu
    exact Or.inr (ht.reported hu)

theorem matchOrderWith_orderId : (matchOrderWith fuel env b o).order.orderId = o.orderId := by
  have ht := taking_matchByType env fuel h hfresh hfill
  rcases matchOrderWith_cases fuel env b o with
    ⟨_, heq⟩ | ⟨_, _, _, heq⟩ | ⟨_, _, _, heq⟩ | ⟨_, heq⟩
  · rw [heq]
  · rw [heq]
    exact ht.orderId
  · rw [heq]
    exact ht.orderId
  · rw [heq]
    exact ht.orderId

end Call

section Continuous

variable {r : MatchResult} {sellPrice : ℚ} {buyOrder sellOrder : Order} {b : OrderBook}

theorem pair_ids_ne (h : b.Coherent) {kb ks : ℤ} (hbuy : (b.levels .buy).Holds kb buyOrder)
    (hsell : (b.levels .sell).Holds ks sellOrder) : buyOrder.orderId ≠ sellOrder.orderId := by
  intro heq
  obtain ⟨hb, hbs, _⟩ := h.indexed hbuy
  obtain ⟨hs, hss, _⟩ := h.indexed hsell
  rw [heq, hs, Option.some.injEq] at hb
  rw [hb, hbs] at hss
  cases hss

theorem live_matchPair (h : Live b) {kb ks : ℤ} (hbuy : (b.levels .buy).Holds kb buyOrder)
    (hsell : (b.levels .sell).Holds ks sellOrder) :
    Live (matchPair env (b, r) sellPrice buyOrder sellOrder).1 := by
  have hne := pair_ids_ne h.coherent hbuy hsell
  have hrb := h.resting_of_holds hbuy
  have hrs := h.resting_of_holds hsell
  have hq : 0 ≤ min buyOrder.remainingQuantity sellOrder.remainingQuantity :=
    le_min hrb.remaining_pos.le hrs.remaining_pos.le
  apply Live.reinsert
  · apply Live.reinsert ((h.removeOrder _).removeOrder _)
    · rw [fillResting_orderId, removeOrder_lookup, if_neg (Ne.symm hne), removeOrder_lookup,
        if_pos rfl]
    · rw [fillResting_filledQuantity]
      exact filled_nonneg_of_fill hrb.2.1 hq
  · rw [fillResting_orderId, reinsert_lookup_of_ne (by simpa using hne), removeOrder_lookup,
      if_pos rfl]
  · rw [fillResting_filledQuantity]
    exact filled_nonneg_of_fill hrs.2.1 hq

theorem matchPair_lookup (h : b.Coherent) {kb ks : ℤ} (hbuy : (b.levels .buy).Holds kb buyOrder)
    (hsell : (b.levels .sell).Holds ks sellOrder) {id : String} {e : Order}
    (he : (matchPair env (b, r) sellPrice buyOrder sellOrder).1.ordersById[id]? = some e) :
    ∃ e₀, b.ordersById[id]? = some e₀ ∧ e.side = e₀.side ∧ e.price = e₀.price := by
  simp only [matchPair] at he
  rcases reinsert_lookup he with ⟨hid, rfl, _⟩ | he
  · rw [fillResting_orderId] at hid
    exact ⟨sellOrder, hid ▸ (h.indexed hsell).1, by simp, by simp⟩
  rcases reinsert_lookup he with ⟨hid, rfl, _⟩ | he
  · rw [fillResting_orderId] at hid
    exact ⟨buyOrder, hid ▸ (h.indexed hbuy).1, by simp, by simp⟩
  rw [removeOrder_lookup, removeOrder_lookup] at he
  split_ifs at he
  exact ⟨e, he, rfl, rfl⟩

/-- A round of `continuous_match` matches the heads of two crossing best levels. -/
theorem continuousRound_some (h : b.Coherent) {s' : OrderBook × MatchResult}
    (hs : continuousRound env (b, r) = some s') :
    ∃ (kb ks : ℤ) (buyOrder sellOrder : Order) (qb qs : List Order),
      b.buyOrders[kb]? = some (buyOrder :: qb) ∧ b.sellOrders[ks]? = some (sellOrder :: qs) ∧
      ks ≤ kb ∧ BestKey .sell b kb ∧ BestKey .buy b ks ∧
      s' = matchPair env (b, r) (ks / 100) buyOrder sellOrder := by
  unfold continuousRound at hs
  cases hbp : b.bestBuyPrice with
  | none => simp [hbp] at hs
  | some bp =>
      cases hsp : b.bestSellPrice with
      | none => simp [hbp, hsp] at hs
      | some sp =>
          obtain ⟨kb, qb, hqb, rfl, hatb, hbb⟩ := bestOppositePrice_spec .sell h hbp
          obtain ⟨ks, qs, hqs, rfl, hats, hbs⟩ := bestOppositePrice_spec .buy h hsp
          change b.getBuyOrdersAtPrice _ = qb at hatb
          change b.getSellOrdersAtPrice _ = qs at hats
          simp only [hbp, hsp, hatb, hats] at hs
          split_ifs at hs with hcross
          cases qb with
          | nil => simp at hs
          | cons buyOrder qb =>
              cases qs with
              | nil => simp at hs
              | cons sellOrder qs =>
                  have hle : ks ≤ kb := by
                    have h100 := (div_le_div_iff_of_pos_right (by norm_num : (0 : ℚ) < 100)).mp
                      hcross
                    exact_mod_cast h100
                  exact ⟨kb, ks, buyOrder, sellOrder, qb, qs, hqb, hqs, hle, hbb, hbs,
                    (Option.some.inj hs).symm⟩

theorem live_continuousRound {s s' : OrderBook × MatchResult} (hb : Live s.1)
    (hs : continuousRound env s = some s') : Live s'.1 := by
  obtain ⟨b, r⟩ := s
  obtain ⟨kb, ks, buyOrder, sellOrder, qb, qs, hqb, hqs, _, _, _, rfl⟩ :=
    continuousRound_some hb.coherent hs
  exact live_matchPair hb ⟨_, hqb, by simp⟩ ⟨_, hqs, by simp⟩

theorem live_continuousMatchWith (env : Env) (fuel : ℕ) (h : Live b) :
    Live (continuousMatchWith fuel env b).1 :=
  Runs.loop_invariant (I := fun s : OrderBook × MatchResult => Live s.1)
    (fun _ _ hb hs => live_continuousRound hb hs) fuel h

theorem continuousMatchWith_lookup (env : Env) (fuel : ℕ) (h : Live b) {id : String} {e : Order}
    (he : (continuousMatchWith fuel env b).1.ordersById[id]? = some e) :
    ∃ e₀, b.ordersById[id]? = some e₀ ∧ e.side = e₀.side ∧ e.price = e₀.price := by
  have hinv : Live (continuousMatchWith fuel env b).1 ∧ ∀ {id : String} {e : Order},
      (continuousMatchWith fuel env b).1.ordersById[id]? = some e →
      ∃ e₀, b.ordersById[id]? = some e₀ ∧ e.side = e₀.side ∧ e.price = e₀.price := by
    apply Runs.loop_invariant (I := fun s : OrderBook × MatchResult => Live s.1 ∧
      ∀ {id : String} {e : Order}, s.1.ordersById[id]? = some e →
      ∃ e₀, b.ordersById[id]? = some e₀ ∧ e.side = e₀.side ∧ e.price = e₀.price) _ fuel
    · exact ⟨h, fun he => ⟨_, he, rfl, rfl⟩⟩
    · rintro ⟨b₁, r⟩ s' ⟨hb, horigin⟩ hs
      obtain ⟨kb, ks, buyOrder, sellOrder, qb, qs, hqb, hqs, _, _, _, rfl⟩ :=
        continuousRound_some hb.coherent hs
      have hbuy : (b₁.levels .buy).Holds kb buyOrder := ⟨_, hqb, by simp⟩
      have hsell : (b₁.levels .sell).Holds ks sellOrder := ⟨_, hqs, by simp⟩
      refine ⟨live_matchPair hb hbuy hsell, fun he => ?_⟩
      obtain ⟨e₁, he₁, hs₁, hp₁⟩ := matchPair_lookup hb.coherent hbuy hsell he
      obtain ⟨e₀, he₀, hs₀, hp₀⟩ := horigin he₁
      exact ⟨e₀, he₀, hs₁.trans hs₀, hp₁.trans hp₀⟩
  exact hinv.2 he

end Continuous

end OrderMatcher

end ActixPura
