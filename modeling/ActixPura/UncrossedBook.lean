import ActixPura.BookRuns
import ActixPura.MatchingTermination

/-!
# `match_order` keeps the book uncrossed

A limit order that still has quantity when its pass over the eligible levels ends has emptied all
of them, so the key at which it then rests lies strictly on its own side of every opposite key.
Orders that are reinserted on the way keep their levels. Hence a run of `execute_order` book steps
never shows a crossed book to `continuous_match`, which then has nothing to do.
-/

namespace ActixPura

open OrderBook OrderMatcher

namespace OrderBook

def Uncrossed (b : OrderBook) : Prop :=
  ∀ ⦃kb ks : ℤ⦄ ⦃o o' : Order⦄, (b.levels .buy).Holds kb o → (b.levels .sell).Holds ks o' → kb < ks

theorem uncrossed_new (symbol : String) : Uncrossed (OrderBook.new symbol) := by
  intro kb ks o o' ho
  simp at ho

/-- Seen from either side: an order of side `side` is worse for the other side than any order
that waits there. -/
theorem uncrossed_iff_better (side : OrderSide) {b : OrderBook} : Uncrossed b ↔
    ∀ ⦃k k' : ℤ⦄ ⦃o o' : Order⦄, (b.levels side).Holds k o →
      (b.levels side.opposite).Holds k' o' → Better side k k' := by
  cases side with
  | buy => rfl
  | sell => exact ⟨fun h _ _ _ _ ho ho' => h ho' ho, fun h _ _ _ _ ho ho' => h ho' ho⟩

/-- A book whose orders come from an uncrossed book with their side and price is uncrossed. -/
theorem Uncrossed.of_origin {b b' : OrderBook} (h : Uncrossed b) (hb : b.Coherent)
    (hb' : b'.Coherent)
    (horigin : ∀ {id : String} {e : Order}, b'.ordersById[id]? = some e →
      ∃ e₀, b.ordersById[id]? = some e₀ ∧ e.side = e₀.side ∧ e.price = e₀.price) :
    Uncrossed b' := by
  have hlift : ∀ {side : OrderSide} {k : ℤ} {e : Order}, (b'.levels side).Holds k e →
      ∃ e₀, (b.levels side).Holds k e₀ := by
    intro side k e he
    obtain ⟨hi, rfl, hp, rfl⟩ := hb'.indexed he
    obtain ⟨e₀, he₀, hs, hpr⟩ := horigin hi
    have hheld := hb.listed he₀ (by simpa only [Order.hasPrice, hpr] using hp)
    rw [← hs] at hheld
    have hk : e₀.priceKey = e.priceKey := by simp only [Order.priceKey, hpr]
    exact ⟨e₀, hk ▸ hheld⟩
  intro kb ks o o' ho ho'
  obtain ⟨e, he⟩ := hlift ho
  obtain ⟨e', he'⟩ := hlift ho'
  exact h he he'

/-- What is left of the order `o₀` may come to rest when its key is worse than every opposite
one. -/
theorem Uncrossed.addOrder {b : OrderBook} {o o₀ : Order} (h : Uncrossed b)
    (hside : o.side = o₀.side) (hprice : o.price = o₀.price)
    (hclear : ∀ p, o₀.price = some p → ∀ k e, (b.levels o₀.side.opposite).Holds k e →
      Better o₀.side o₀.priceKey k) : Uncrossed (b.addOrder o).1 := by
  cases ha : b.accepts o with
  | false => rwa [addOrder_rejected ha]
  | true =>
      rw [uncrossed_iff_better o₀.side] at h ⊢
      intro k k' e e' he he'
      rcases (holds_addOrder ha _ _ _).mp he' with he' | ⟨_, hs, _⟩
      · rcases (holds_addOrder ha _ _ _).mp he with he | ⟨hp, _, rfl, _⟩
        · exact h he he'
        · obtain ⟨p, hp, _⟩ := Order.hasPrice_iff.mp hp
          have hkey : o.priceKey = o₀.priceKey := by simp only [Order.priceKey, hprice]
          rw [hkey]
          exact hclear p (hprice ▸ hp) k' e' he'
      · rw [hside] at hs
        exact absurd hs o₀.side.opposite_ne

end OrderBook

namespace OrderMatcher

variable {env : Env} {taker : OrderSide}

theorem matchCandidates_keeps_absent {s : MatchState} {q : List Order} (hb : s.book.Coherent)
    (hq : ∀ c ∈ q, (s.book.levels taker.opposite).Holds c.priceKey c)
    (hnd : (q.map Order.orderId).Nodup) {id : String} (hid : s.book.ordersById[id]? = none) :
    (matchCandidates env taker s q).book.ordersById[id]? = none := by
  refine (matchCandidates_induction (P := fun t => t.book.ordersById[id]? = none) ?_ q s hb hid
    hq hnd).2
  intro t c hco ht _ _ hc
  have hne : c.orderId ≠ id := by
    intro heq
    rw [← heq, (hco.indexed hc).1] at ht
    cases ht
  rwa [matchCandidate_lookup_of_ne hne]

/-- A pass over the candidates ends with the incoming order done or with all of them gone. -/
theorem matchCandidates_exhausts {s : MatchState} {q : List Order} (hs : Live s.book)
    (hr : 0 < s.remainingQty) (ha : s.order.isActive = true)
    (hq : ∀ c ∈ q, (s.book.levels taker.opposite).Holds c.priceKey c)
    (hnd : (q.map Order.orderId).Nodup) :
    (matchCandidates env taker s q).order.isActive = false ∨
      ∀ c ∈ q, (matchCandidates env taker s q).book.ordersById[c.orderId]? = none := by
  induction q generalizing s with
  | nil => exact Or.inr (by simp)
  | cons c q ih =>
      have hc := hq c (by simp)
      have hrest := hs.resting_of_holds hc
      obtain ⟨hnot, hnd'⟩ := List.nodup_cons.mp hnd
      have hgo : ¬ (s.remainingQty ≤ 0 ∨ s.order.isActive = false) := by simp [hr, ha]
      rw [matchCandidates, if_neg hgo]
      by_cases hopen : 0 < (matchCandidate env taker (c.price.getD 0) s c).remainingQty
      · have hq' : ∀ e ∈ q, ((matchCandidate env taker (c.price.getD 0) s c).book.levels
            taker.opposite).Holds e.priceKey e := by
          intro e he
          apply (holds_matchCandidate_of_ne hs.coherent _).mpr (hq e (by simp [he]))
          exact fun heq => hnot (heq ▸ List.mem_map_of_mem he)
        rcases ih (live_matchCandidate hs hrest hr) hopen (matchCandidate_isActive.mpr hopen) hq'
          hnd' with hdone | hgone
        · exact Or.inl hdone
        · refine Or.inr ?_
          intro e he
          rcases List.mem_cons.mp he with rfl | he
          · apply matchCandidates_keeps_absent (coherent_matchCandidate hs.coherent) hq' hnd'
            rw [matchCandidate_book_of_open hrest hopen]
            exact removed_lookup _ _
          · exact hgone e he
      · have hdone := matchCandidate_isActive.not.mpr hopen
        rw [Bool.not_eq_true] at hdone
        left
        cases q with
        | nil => exact hdone
        | cons d q =>
            rw [matchCandidates, if_pos (Or.inr hdone)]
            exact hdone

/-- When a limit order is about to rest, no eligible order is left in the book. -/
theorem limit_remainder_clear {b : OrderBook} {o : Order} {p : ℚ} (hb : Live b)
    (hfresh : b.ordersById[o.orderId]? = none) (hfill : 0 ≤ o.filledQuantity)
    (hact : o.isActive = true) (fuel : ℕ) (hp : o.price = some p) (ht : o.orderType = .limit)
    (hopen : (matchByType fuel env b o).order.isActive = true ∧
      0 < (matchByType fuel env b o).order.remainingQuantity)
    {k : ℤ} {e : Order}
    (he : ((matchByType fuel env b o).book.levels o.side.opposite).Holds k e) :
    Better o.side o.priceKey k := by
  have htake := taking_matchByType env fuel hb hfresh hfill
  obtain ⟨hi, hside, hprice, rfl⟩ := htake.live.coherent.indexed he
  have hform : matchByType fuel env b o =
      matchCandidates env o.side (start b o) (limitCandidates b o.side p) := by
    rcases matchByType_cases fuel env b o with ⟨ht', _⟩ | ⟨p', _, hp', he⟩ | ⟨_, hnone, _⟩
    · rw [ht] at ht'
      cases ht'
    · rw [hp, Option.some.injEq] at hp'
      rw [he, hp']
    · rw [hnone ht] at hp
      cases hp
  obtain ⟨l, hl, hcand⟩ := limitCandidates_traversal b o.side p
  by_contra hbetter
  obtain ⟨e₀, he₀, hs₀, hp₀⟩ := htake.origin hi
  have hkey : e.priceKey = e₀.priceKey := by simp only [Order.priceKey, hp₀]
  have htarget : o.priceKey = asI64 (p * 100) := by simp only [Order.priceKey, hp, Option.getD_some]
  have hid₀ : e₀.orderId = e.orderId := hb.coherent.index_id he₀
  have hmem : e₀ ∈ limitCandidates b o.side p := by
    apply (mem_limitCandidates hb.coherent).mpr
    refine ⟨?_, by rwa [← htarget, ← hkey]⟩
    rw [← hside, hs₀]
    exact hb.coherent.listed he₀ (by simpa only [Order.hasPrice, hp₀] using hprice)
  rw [hform] at hopen hi
  by_cases hr : 0 < (start b o).remainingQty
  · rcases matchCandidates_exhausts hb hr hact
      (fun c hc => ((mem_limitCandidates hb.coherent).mp hc).1)
      (by rw [hcand]; exact hb.coherent.nodup_traversal hl) with hdone | hgone
    · rw [hdone] at hopen
      simp at hopen
    · have hnone := hgone e₀ hmem
      rw [hid₀, hi] at hnone
      cases hnone
  · cases hq : limitCandidates b o.side p with
    | nil => simp [hq] at hmem
    | cons c q =>
        rw [hq, matchCandidates, if_pos (Or.inl (not_lt.mp hr))] at hopen
        exact hr hopen.2

theorem uncrossed_matchOrderWith (env : Env) (fuel : ℕ) {b : OrderBook} {o : Order} (hb : Live b)
    (hfresh : b.ordersById[o.orderId]? = none) (hfill : 0 ≤ o.filledQuantity)
    (h : Uncrossed b) : Uncrossed (matchOrderWith fuel env b o).book := by
  have htake := taking_matchByType env fuel hb hfresh hfill
  have hmatched : Uncrossed (matchByType fuel env b o).book :=
    h.of_origin hb.coherent htake.live.coherent htake.origin
  rcases matchOrderWith_cases fuel env b o with
    ⟨_, heq⟩ | ⟨hact, hopen, hlim, heq⟩ | ⟨_, _, _, heq⟩ | ⟨_, heq⟩
  · rw [heq]
    exact h
  · rw [heq]
    apply hmatched.addOrder htake.side htake.orderPrice
    intro p hp k e he
    exact limit_remainder_clear hb hfresh hfill hact fuel hp (htake.orderType ▸ hlim) hopen he
  · rw [heq]
    exact hmatched
  · rw [heq]
    exact hmatched

/-- On an uncrossed book `continuous_match` does nothing. -/
theorem continuousMatchWith_uncrossed (env : Env) (fuel : ℕ) {b : OrderBook} (hb : b.Coherent)
    (h : Uncrossed b) : continuousMatchWith fuel env b = (b, .new) := by
  apply Runs.loop_succ_of_none
  cases hround : continuousRound env (b, .new) with
  | none => rfl
  | some s' =>
      obtain ⟨kb, ks, buyOrder, sellOrder, qb, qs, hqb, hqs, hcross, _⟩ :=
        continuousRound_some hb hround
      have hlt : kb < ks := h ⟨_, hqb, List.mem_cons_self⟩ ⟨_, hqs, List.mem_cons_self⟩
      omega

end OrderMatcher

/-- The book steps of one `execute_order` call. -/
structure ExecuteStep where
  matchEnv : Env
  continuousEnv : Env
  order : Order

namespace ExecuteStep

def apply (s : BookRun) (op : ExecuteStep) : BookRun :=
  ⟨(continuousMatch op.continuousEnv (matchOrder op.matchEnv s.book op.order).book).1,
    op.order.orderId :: s.used⟩

def Ok (s : BookRun) (op : ExecuteStep) : Prop :=
  op.order.orderId ∉ s.used ∧ op.order.filledQuantity = 0 ∧ op.order.symbol = s.book.symbol

instance (s : BookRun) (op : ExecuteStep) : Decidable (Ok s op) :=
  inferInstanceAs (Decidable (_ ∧ _))

theorem inv_apply (s : BookRun) (op : ExecuteStep) (h : s.Inv ∧ Uncrossed s.book)
    (hok : Ok s op) : (apply s op).Inv ∧ Uncrossed (apply s op).book := by
  have hfresh := h.1.fresh hok.1
  have hfill : 0 ≤ op.order.filledQuantity := hok.2.1.ge
  have hs : Live (matchOrder op.matchEnv s.book op.order).book :=
    live_matchOrderWith _ _ h.1.live hfresh hfill
  have hu : Uncrossed (matchOrder op.matchEnv s.book op.order).book :=
    uncrossed_matchOrderWith _ _ h.1.live hfresh hfill h.2
  have hbook : (apply s op).book = (matchOrder op.matchEnv s.book op.order).book :=
    congrArg Prod.fst (continuousMatchWith_uncrossed _ _ hs.coherent hu)
  refine ⟨⟨?_, ?_⟩, ?_⟩
  · rw [hbook]
    exact hs
  · intro id e he
    rw [hbook] at he
    rcases matchOrderWith_lookup _ _ h.1.live hfresh hfill he with ⟨e₀, he₀, _⟩ | ⟨rfl, _⟩
    · exact List.mem_cons_of_mem _ (h.1.used he₀)
    · exact List.mem_cons_self
  · rw [hbook]
    exact hu

/-- After each `match_order` of a run the greatest buy key lies strictly below the least sell
key, and the `continuous_match` that follows produces nothing and changes nothing. -/
theorem execute_book_uncrossed (symbol : String) (ops : List ExecuteStep) (op : ExecuteStep)
    (h : Runs.Admissible apply Ok (BookRun.init symbol) (ops ++ [op])) :
    let b₀ := (Runs.run apply (BookRun.init symbol) ops).book
    let b := (matchOrder op.matchEnv b₀ op.order).book
    (∀ kb ks, b.buyOrders.lastKey = some kb → b.sellOrders.firstKey = some ks → kb < ks) ∧
      continuousMatch op.continuousEnv b = (b, .new) := by
  obtain ⟨hops, hok, _⟩ := Runs.admissible_append.mp h
  obtain ⟨hinv, hunc⟩ := Runs.invariant_run (I := fun s => s.Inv ∧ Uncrossed s.book) inv_apply
    ⟨⟨Live.new symbol, fun h => by simp [BookRun.init, OrderBook.new] at h⟩,
      uncrossed_new symbol⟩ hops
  have hfresh := hinv.fresh hok.1
  have hfill : 0 ≤ op.order.filledQuantity := hok.2.1.ge
  intro b₀ b
  have hs : b.Coherent := (live_matchOrderWith _ _ hinv.live hfresh hfill).coherent
  have hu : Uncrossed b := uncrossed_matchOrderWith _ _ hinv.live hfresh hfill hunc
  refine ⟨?_, continuousMatchWith_uncrossed _ _ hs hu⟩
  intro kb ks hkb hks
  obtain ⟨⟨qb, hqb⟩, _⟩ := QueueMap.lastKey_eq_some hkb
  obtain ⟨⟨qs, hqs⟩, _⟩ := QueueMap.firstKey_eq_some hks
  obtain ⟨x, hx⟩ := List.exists_mem_of_ne_nil qb (hs.noEmpty .buy kb qb hqb)
  obtain ⟨y, hy⟩ := List.exists_mem_of_ne_nil qs (hs.noEmpty .sell ks qs hqs)
  exact hu ⟨qb, hqb, hx⟩ ⟨qs, hqs, hy⟩

/-- A limit buy order for more than the best offer holds, between an offer at 150 and one
at 155. -/
def crossingRun : List ExecuteStep :=
  let env : Env := ⟨fun n => n, fun n => toString n⟩
  [⟨env, env, Order.fromRequest "" 0 ⟨some "s1", "AAPL", .sell, some 150, 5, "acc", .limit⟩⟩,
    ⟨env, env, Order.fromRequest "" 0 ⟨some "s2", "AAPL", .sell, some 155, 5, "acc", .limit⟩⟩]

theorem crossingRun_uncrossed :
    let env : Env := ⟨fun n => n, fun n => toString n⟩
    let o := Order.fromRequest "" 0 ⟨some "b1", "AAPL", .buy, some 152, 8, "acc", .limit⟩
    let b := (matchOrder env (Runs.run apply (BookRun.init "AAPL") crossingRun).book o).book
    Runs.Admissible apply Ok (BookRun.init "AAPL") (crossingRun ++ [⟨env, env, o⟩]) ∧
      b.buyOrders.lastKey = some 15200 ∧ b.sellOrders.firstKey = some 15500 ∧
      continuousMatch env b = (b, .new) := by
  intro env o b
  have hok : Runs.Admissible apply Ok (BookRun.init "AAPL") (crossingRun ++ [⟨env, env, o⟩]) := by
    decide +kernel
  exact ⟨hok, by decide +kernel, by decide +kernel,
    (execute_book_uncrossed "AAPL" crossingRun ⟨env, env, o⟩ hok).2⟩

end ExecuteStep

end ActixPura
