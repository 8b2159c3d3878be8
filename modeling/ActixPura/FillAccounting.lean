import ActixPura.UncrossedBook

/-!
# When filled quantities agree with the executions

`update_filled_quantity` adds its argument, and every caller passes the new total. A fill of an
order that was filled before is therefore counted twice. The ledger of a run collects all
executions and all reported orders, and `Accounted` compares each copy of an order with the
executions that name it. It holds along every run in which each `match_order` call makes at most
one match, against an order that was not filled before. `continuous_match` needs no condition,
because it never finds a crossed book.
-/

namespace ActixPura

open OrderBook OrderMatcher

/-- The executed quantity of an order. -/
def executedQuantity (id : String) (es : List Execution) : ℚ :=
  ((es.filter (fun e => e.names id)).map Execution.quantity).sum

theorem executedQuantity_append_single (id : String) (es : List Execution) (e : Execution) :
    executedQuantity id (es ++ [e]) =
      executedQuantity id es + if e.names id then e.quantity else 0 := by
  unfold executedQuantity
  cases h : e.names id <;> simp [List.filter_append, h]

/-- The last reported copy of an order. -/
def latestCopy (reported : List Order) (id : String) : Option Order :=
  reported.reverse.find? (fun o => o.orderId == id)

theorem latestCopy_append_single (reported : List Order) (o : Order) (id : String) :
    latestCopy (reported ++ [o]) id =
      if o.orderId = id then some o else latestCopy reported id := by
  unfold latestCopy
  by_cases h : o.orderId = id
  · simp [h]
  · simp [h]

structure Ledger where
  book : OrderBook
  used : List String
  executions : List Execution
  reported : List Order
  /-- The order of the last call as it was returned to the caller. -/
  caller : Option Order

inductive FillOp
  | matchOrder (env : Env) (o : Order)
  | continuousMatch (env : Env)

namespace Ledger

def init (symbol : String) : Ledger := ⟨.new symbol, [], [], [], none⟩

def step (s : Ledger) : FillOp → Ledger
  | .matchOrder env o =>
    let out := OrderMatcher.matchOrder env s.book o
    ⟨out.book, o.orderId :: s.used, s.executions ++ out.result.executions,
      s.reported ++ out.result.updatedOrders, some out.order⟩
  | .continuousMatch env =>
    let out := OrderMatcher.continuousMatch env s.book
    ⟨out.1, s.used, s.executions ++ out.2.executions, s.reported ++ out.2.updatedOrders, none⟩

def Ok (s : Ledger) : FillOp → Prop
  | .matchOrder _ o => o.orderId ∉ s.used ∧ o.filledQuantity = 0 ∧ 0 < o.quantity
  | .continuousMatch _ => True

instance (s : Ledger) : ∀ op, Decidable (s.Ok op)
  | .matchOrder _ _ => inferInstanceAs (Decidable (_ ∧ _))
  | .continuousMatch _ => isTrue trivial

/-- A copy whose filled quantity is the executed quantity, within the order's quantity. -/
def Agrees (es : List Execution) (o : Order) : Prop :=
  o.filledQuantity = executedQuantity o.orderId es ∧
    executedQuantity o.orderId es ≤ o.quantity

/-- Every copy of an order agrees with the executions so far: the caller's, the two in the book
and the last one reported. -/
structure Accounted (s : Ledger) : Prop where
  caller : ∀ {o : Order}, s.caller = some o → Agrees s.executions o
  index : ∀ {id : String} {o : Order}, s.book.ordersById[id]? = some o → Agrees s.executions o
  level : ∀ {side : OrderSide} {k : ℤ} {o : Order}, (s.book.levels side).Holds k o →
    Agrees s.executions o
  reported : ∀ {id : String} {o : Order}, latestCopy s.reported id = some o →
    Agrees s.executions o

end Ledger

namespace OrderMatcher

/-- The opposite orders in the sequence in which a market order reaches them. -/
def bestFirst (b : OrderBook) : OrderSide → List Order
  | .buy => b.sellOrders.entries
  | .sell => b.buyOrders.descending

/-- The orders `match_order` may match, in the sequence in which it reaches them. -/
def candidates (b : OrderBook) (o : Order) : List Order :=
  match o.orderType, o.price with
  | .market, _ => bestFirst b o.side
  | .limit, some price => limitCandidates b o.side price
  | _, _ => []

/-- The first candidate was not filled before, and it is the only one or large enough. -/
def OneFreshFill (qty : ℚ) : List Order → Prop
  | [] => True
  | c :: cs => c.filledQuantity = 0 ∧ (cs = [] ∨ qty ≤ c.quantity)

instance (qty : ℚ) : ∀ cs, Decidable (OneFreshFill qty cs)
  | [] => isTrue trivial
  | _ :: _ => inferInstanceAs (Decidable (_ ∧ _))

end OrderMatcher

/-- The condition on a call and the book before it. -/
def Ledger.SingleFill (s : Ledger) : FillOp → Prop
  | .matchOrder _ o => o.isActive = false ∨ OneFreshFill o.quantity (candidates s.book o)
  | .continuousMatch _ => True

instance (s : Ledger) : ∀ op, Decidable (s.SingleFill op)
  | .matchOrder _ _ => inferInstanceAs (Decidable (_ ∨ _))
  | .continuousMatch _ => isTrue trivial

namespace OrderMatcher

variable {env : Env} {b : OrderBook} {o : Order}

theorem mem_bestFirst {taker : OrderSide} {c : Order} :
    c ∈ bestFirst b taker ↔ ∃ k, (b.levels taker.opposite).Holds k c := by
  cases taker with
  | buy => exact QueueMap.mem_entries
  | sell => exact QueueMap.mem_descending

theorem bestFirst_congr {taker : OrderSide} {b' : OrderBook}
    (h : b.levels taker.opposite = b'.levels taker.opposite) :
    bestFirst b taker = bestFirst b' taker := by
  cases taker with
  | buy => exact congrArg QueueMap.entries h
  | sell => exact congrArg QueueMap.descending h

/-- The queue a market round takes opens the best-first sequence; the other levels follow. -/
theorem bestFirst_of_level {taker : OrderSide} {k : ℤ} {q : List Order} (h : b.Coherent)
    (hq : (b.levels taker.opposite)[k]? = some q) (hk : BestKey taker b k) :
    bestFirst b taker = q ++
      bestFirst (b.setLevels taker.opposite ((b.levels taker.opposite).erase k)) taker := by
  cases taker with
  | buy =>
      obtain ⟨q₁, hq₁, hentries⟩ := QueueMap.entries_of_firstKey (firstKey_of_bestKey h hq hk)
      obtain rfl : q₁ = q := Option.some.inj (hq₁.symm.trans hq)
      exact hentries
  | sell =>
      obtain ⟨q₁, hq₁, hentries⟩ := QueueMap.descending_of_lastKey (lastKey_of_bestKey h hq hk)
      obtain rfl : q₁ = q := Option.some.inj (hq₁.symm.trans hq)
      exact hentries

/-- A market order that took the only opposite order and has quantity left finds no other. -/
theorem marketRound_none_of_only {taker : OrderSide} {price : ℚ} {s : MatchState} {c : Order}
    (hs : Live s.book) (hc : (s.book.levels taker.opposite).Holds c.priceKey c)
    (honly : ∀ {k : ℤ} {e : Order}, (s.book.levels taker.opposite).Holds k e → e = c)
    (hopen : 0 < (matchCandidate env taker price s c).remainingQty) :
    marketRound env taker (matchCandidate env taker price s c) = none := by
  cases hnext : marketRound env taker (matchCandidate env taker price s c) with
  | none => rfl
  | some s' =>
      exfalso
      have hco : (matchCandidate env taker price s c).book.Coherent :=
        coherent_matchCandidate hs.coherent
      obtain ⟨_, _, k, q, hne, hq, _⟩ := marketRound_some hco hnext
      obtain ⟨e, he⟩ := List.exists_mem_of_ne_nil q hne
      obtain ⟨e₀, hid, he₀⟩ := holds_matchCandidate hs.coherent hc ⟨q, hq, he⟩
      obtain rfl := honly he₀
      have hidx := (hco.indexed ⟨q, hq, he⟩).1
      rw [matchCandidate_book_of_open (hs.resting_of_holds hc) hopen, ← hid,
        removed_lookup] at hidx
      cases hidx

/-- Under the condition a market loop makes no match, or exactly one with an order that was not
filled before. -/
theorem market_single (fuel : ℕ) {taker : OrderSide} {s : MatchState} (hs : Live s.book)
    (hcond : OneFreshFill s.remainingQty (bestFirst s.book taker)) :
    Runs.loop (marketRound env taker) (fuel + 1) s = s ∨
      ∃ c price, (s.book.levels taker.opposite).Holds c.priceKey c ∧ c.filledQuantity = 0 ∧
        Runs.loop (marketRound env taker) (fuel + 1) s = matchCandidate env taker price s c := by
  cases hround : marketRound env taker s with
  | none => exact Or.inl (Runs.loop_succ_of_none hround)
  | some s' =>
      obtain ⟨_, _, k, q, hne, hq, hbest, rfl⟩ := marketRound_some hs.coherent hround
      have hrest := bestFirst_of_level hs.coherent hq hbest
      cases q with
      | nil => exact absurd rfl hne
      | cons c q =>
          have hc : (s.book.levels taker.opposite).Holds k c := ⟨_, hq, List.mem_cons_self⟩
          obtain rfl := (hs.coherent.indexed hc).2.2.2
          rw [hrest, List.cons_append] at hcond
          refine Or.inr ⟨c, (c.priceKey : ℚ) / 100, hc, hcond.1, ?_⟩
          rw [Runs.loop_succ_of_some hround, matchLevel]
          split_ifs with hle
          · apply Runs.loop_succ_of_none
            simp [marketRound, not_lt.mpr hle]
          · have hsmall : ¬ s.remainingQty ≤ c.quantity := by
              intro hqty
              apply hle
              rw [matchCandidate_remainingQty]
              simp [matchQuantity, Order.remainingQuantity, hcond.1, hqty]
            obtain ⟨rfl, hnil⟩ := List.append_eq_nil_iff.mp (hcond.2.resolve_right hsmall)
            apply Runs.loop_succ_of_none
            apply marketRound_none_of_only hs hc _ (not_le.mp hle)
            intro k' e he
            have hmem := mem_bestFirst.mpr ⟨k', he⟩
            rw [hrest, hnil] at hmem
            simpa using hmem

theorem limit_single {taker : OrderSide} {s : MatchState} {q : List Order}
    (hr : 0 < s.remainingQty) (ha : s.order.isActive = true)
    (hcond : OneFreshFill s.remainingQty q) :
    matchCandidates env taker s q = s ∨
      ∃ c ∈ q, c.filledQuantity = 0 ∧
        matchCandidates env taker s q = matchCandidate env taker (c.price.getD 0) s c := by
  cases q with
  | nil => exact Or.inl rfl
  | cons c q =>
      refine Or.inr ⟨c, List.mem_cons_self, hcond.1, ?_⟩
      rw [matchCandidates, if_neg (by simp [hr, ha])]
      cases q with
      | nil => rfl
      | cons d q =>
          have hle := hcond.2.resolve_left (List.cons_ne_nil d q)
          have hdone : (matchCandidate env taker (c.price.getD 0) s c).remainingQty ≤ 0 := by
            rw [matchCandidate_remainingQty]
            simp [matchQuantity, Order.remainingQuantity, hcond.1, hle]
          rw [matchCandidates, if_pos (Or.inl hdone)]

/-- Under the condition `match_order` makes no match, or exactly one with an order that was not
filled before. -/
theorem matchByType_single (env : Env) (fuel : ℕ) (hb : Live b) (hact : o.isActive = true)
    (hfill : o.filledQuantity = 0) (hqty : 0 < o.quantity)
    (hcond : OneFreshFill o.quantity (candidates b o)) :
    matchByType (fuel + 1) env b o = start b o ∨
      ∃ c price, (b.levels o.side.opposite).Holds c.priceKey c ∧ c.filledQuantity = 0 ∧
        matchByType (fuel + 1) env b o = matchCandidate env o.side price (start b o) c := by
  have hrem : (start b o).remainingQty = o.quantity := by
    simp [start, Order.remainingQuantity, hfill]
  rcases matchByType_cases (fuel + 1) env b o with ⟨ht, he⟩ | ⟨p, ht, hp, he⟩ | ⟨_, _, he⟩
  · rw [he]
    apply market_single fuel hb
    rw [hrem]
    change OneFreshFill o.quantity (bestFirst b o.side)
    simpa only [candidates, ht] using hcond
  · rw [he]
    have hr : 0 < (start b o).remainingQty := by rwa [hrem]
    have hcand : OneFreshFill (start b o).remainingQty (limitCandidates b o.side p) := by
      simpa only [hrem, candidates, ht, hp] using hcond
    rcases limit_single hr hact hcand with hnone | ⟨c, hmem, hc0, hone⟩
    · exact Or.inl hnone
    · exact Or.inr ⟨c, c.price.getD 0, ((mem_limitCandidates hb.coherent).mp hmem).1, hc0, hone⟩
  · exact Or.inl he

end OrderMatcher

namespace Ledger

/-- The copies of the caller, the index and the reports, checked against executions `es`. -/
structure CopiesAgree (es : List Execution) (caller : Order) (b : OrderBook)
    (reported : List Order) : Prop where
  caller : Agrees es caller
  index : ∀ {id : String} {o : Order}, b.ordersById[id]? = some o → Agrees es o
  reported : ∀ {id : String} {o : Order}, latestCopy reported id = some o → Agrees es o

structure Inv (s : Ledger) : Prop where
  live : Live s.book
  uncrossed : Uncrossed s.book
  indexUsed : ∀ {id : String} {o : Order}, s.book.ordersById[id]? = some o → id ∈ s.used
  namedUsed : ∀ {e : Execution} {id : String}, e ∈ s.executions → e.names id = true → id ∈ s.used
  reportedUsed : ∀ {o : Order}, o ∈ s.reported → o.orderId ∈ s.used
  index : ∀ {id : String} {o : Order}, s.book.ordersById[id]? = some o → Agrees s.executions o
  reported : ∀ {id : String} {o : Order}, latestCopy s.reported id = some o →
    Agrees s.executions o

theorem Agrees.append_of_not_names {es : List Execution} {o : Order} (h : Agrees es o)
    {e : Execution} (he : ¬ e.names o.orderId = true) : Agrees (es ++ [e]) o := by
  unfold Agrees at h ⊢
  rwa [executedQuantity_append_single, if_neg he, add_zero]

/-- An order whose first fill is `qty`. -/
theorem Agrees.first_fill {es : List Execution} {o : Order} {e : Execution}
    (h0 : executedQuantity o.orderId es = 0) (he : e.names o.orderId = true)
    (hfill : o.filledQuantity = e.quantity) (hle : e.quantity ≤ o.quantity) :
    Agrees (es ++ [e]) o := by
  unfold Agrees
  rw [executedQuantity_append_single, if_pos he, h0, zero_add]
  exact ⟨hfill, hle⟩

theorem Inv.executed_fresh {s : Ledger} (h : s.Inv) {id : String} (hid : id ∉ s.used) :
    executedQuantity id s.executions = 0 := by
  have hnone : s.executions.filter (fun e => e.names id) = [] := by
    apply List.filter_eq_nil_iff.mpr
    intro e he hn
    exact hid (h.namedUsed he hn)
  simp [executedQuantity, hnone]

theorem Inv.index_fresh {s : Ledger} (h : s.Inv) {id : String} (hid : id ∉ s.used) :
    s.book.ordersById[id]? = none := by
  cases hidx : s.book.ordersById[id]? with
  | none => rfl
  | some o => exact absurd (h.indexUsed hidx) hid

section OneCall

variable (env : Env) {s : Ledger} {o : Order}

theorem copiesAgree_start (h : s.Inv) (hid : o.orderId ∉ s.used) (hfill : o.filledQuantity = 0)
    (hqty : 0 < o.quantity) : CopiesAgree s.executions o s.book s.reported where
  caller := by
    rw [Agrees, h.executed_fresh hid]
    exact ⟨hfill, hqty.le⟩
  index := h.index
  reported := h.reported

theorem copiesAgree_match (h : s.Inv) (hid : o.orderId ∉ s.used) (hfill : o.filledQuantity = 0)
    {c : Order} (price : ℚ)
    (hc : (s.book.levels o.side.opposite).Holds c.priceKey c) (hc0 : c.filledQuantity = 0) :
    let t := matchCandidate env o.side price (start s.book o) c
    CopiesAgree (s.executions ++ t.result.executions) t.order t.book
      (s.reported ++ t.result.updatedOrders) := by
  intro t
  have hidx := (h.live.coherent.indexed hc).1
  have hcq : executedQuantity c.orderId s.executions = 0 := by
    rw [← (h.index hidx).1]
    exact hc0
  have hne : c.orderId ≠ o.orderId := fun heq => hid (heq ▸ h.indexUsed hidx)
  set qty := matchQuantity (start s.book o) c with hqdef
  have hqo : qty ≤ o.quantity := by
    have hle : qty ≤ o.remainingQuantity := min_le_left _ _
    rwa [Order.remainingQuantity, hfill, sub_zero] at hle
  have hqc : qty ≤ c.quantity := by
    have hle : qty ≤ c.remainingQuantity := min_le_right _ _
    rwa [Order.remainingQuantity, hc0, sub_zero] at hle
  set e := takerRecord env 0 o.side o c price qty with he
  have hexec : s.executions ++ t.result.executions = s.executions ++ [e] := rfl
  have hrep : s.reported ++ t.result.updatedOrders =
      s.reported ++ [filledCopy env (start s.book o) c] := rfl
  have hcopy : Agrees (s.executions ++ [e]) (filledCopy env (start s.book o) c) := by
    apply Agrees.first_fill
    · simpa [filledCopy] using hcq
    · rw [he, takerRecord_names]
      exact Or.inr (by simp [filledCopy])
    · simp [filledCopy, hc0, he, ← hqdef]
    · simpa [filledCopy, he] using hqc
  have hother : ∀ {x : Order}, Agrees s.executions x → x.orderId ≠ c.orderId →
      x.orderId ≠ o.orderId → Agrees (s.executions ++ [e]) x := by
    intro x hx hxc hxo
    apply hx.append_of_not_names
    rw [he, takerRecord_names]
    rintro (heq | heq)
    · exact hxo heq.symm
    · exact hxc heq.symm
  rw [hexec, hrep]
  refine ⟨?_, ?_, ?_⟩
  · apply Agrees.first_fill
    · exact h.executed_fresh hid
    · rw [he, takerRecord_names]
      exact Or.inl rfl
    · rw [he, takerRecord_quantity, matchCandidate_filledQuantity]
      change o.filledQuantity + (o.filledQuantity + qty) = qty
      rw [hfill]
      ring
    · rw [he, takerRecord_quantity]
      exact hqo
  · intro id x hx
    rcases matchCandidate_lookup hx with ⟨hcid, hx⟩ | ⟨_, rfl, _⟩
    · have hxid := h.live.coherent.index_id hx
      apply hother (h.index hx)
      · rw [hxid]
        exact Ne.symm hcid
      · rw [hxid]
        exact fun heq => hid (heq ▸ h.indexUsed hx)
    · exact hcopy
  · intro id x hx
    rw [latestCopy_append_single] at hx
    split_ifs at hx with hcid
    · exact Option.some.inj hx ▸ hcopy
    · have hfound := List.find?_some hx
      have hxid : x.orderId = id := by simpa using hfound
      apply hother (h.reported hx)
      · rw [hxid]
        exact fun heq => hcid (by simpa [filledCopy] using heq.symm)
      · rw [hxid]
        rintro rfl
        have hmem := List.mem_of_find?_eq_some hx
        exact hid (hxid ▸ h.reportedUsed (List.mem_reverse.mp hmem))

/-- The matching loops under the condition leave every copy in agreement. -/
theorem copiesAgree_matchByType (fuel : ℕ) (h : s.Inv) (hid : o.orderId ∉ s.used)
    (hfill : o.filledQuantity = 0) (hqty : 0 < o.quantity) (hact : o.isActive = true)
    (hcond : OneFreshFill o.quantity (candidates s.book o)) :
    let t := matchByType (fuel + 1) env s.book o
    CopiesAgree (s.executions ++ t.result.executions) t.order t.book
      (s.reported ++ t.result.updatedOrders) := by
  dsimp only
  rcases matchByType_single env fuel h.live hact hfill hqty hcond with
    he | ⟨c, price, hc, hc0, he⟩
  · rw [he]
    simpa [start, MatchResult.new] using copiesAgree_start h hid hfill hqty
  · rw [he]
    exact copiesAgree_match env h hid hfill price hc hc0

/-- One call under the condition leaves every copy in agreement. After the loops it makes copies
of the caller's order only. -/
theorem copiesAgree_matchOrder (h : s.Inv) (hid : o.orderId ∉ s.used)
    (hfill : o.filledQuantity = 0) (hqty : 0 < o.quantity)
    (hcond : o.isActive = false ∨ OneFreshFill o.quantity (candidates s.book o)) :
    let out := matchOrder env s.book o
    CopiesAgree (s.executions ++ out.result.executions) out.order out.book
      (s.reported ++ out.result.updatedOrders) := by
  have hloops (hact : o.isActive = true) := copiesAgree_matchByType env
    s.book.ordersById.size h hid hfill hqty hact (hcond.resolve_left (by simp [hact]))
  unfold matchOrder
  rcases matchOrderWith_cases (s.book.ordersById.size + 1) env s.book o with
    ⟨_, heq⟩ | ⟨hact, _, _, heq⟩ | ⟨hact, _, now, heq⟩ | ⟨hact, heq⟩
  · rw [heq]
    simpa [MatchResult.new] using copiesAgree_start h hid hfill hqty
  · rw [heq]
    have ht := hloops hact
    refine ⟨ht.caller, ?_, ht.reported⟩
    intro id x hx
    cases ha : (matchByType (s.book.ordersById.size + 1) env s.book o).book.accepts
        (matchByType (s.book.ordersById.size + 1) env s.book o).order with
    | false =>
        rw [addOrder_rejected ha] at hx
        exact ht.index hx
    | true =>
        rw [addOrder_lookup ha] at hx
        split_ifs at hx
        · exact Option.some.inj hx ▸ ht.caller
        · exact ht.index hx
  · rw [heq]
    have ht := hloops hact
    refine ⟨ht.caller, ht.index, ?_⟩
    intro id x hx
    simp only [MatchResult.addUpdatedOrder] at hx
    rw [← List.append_assoc, latestCopy_append_single] at hx
    split_ifs at hx
    · exact Option.some.inj hx ▸ ht.caller
    · exact ht.reported hx
  · rw [heq]
    exact hloops hact

end OneCall

theorem inv_step (s : Ledger) (op : FillOp) (h : s.Inv) (hok : s.Ok op ∧ s.SingleFill op) :
    (s.step op).Inv ∧ (s.step op).Accounted := by
  cases op with
  | matchOrder env o =>
      obtain ⟨⟨hid, hfill, hqty⟩, hcond⟩ := hok
      have hfresh := h.index_fresh hid
      have hcopies := copiesAgree_matchOrder env h hid hfill hqty hcond
      have hs : Live (s.step (.matchOrder env o)).book :=
        live_matchOrderWith env _ h.live hfresh hfill.ge
      refine ⟨⟨hs, uncrossed_matchOrderWith env _ h.live hfresh hfill.ge h.uncrossed, ?_, ?_, ?_,
        hcopies.index, hcopies.reported⟩, ⟨?_, hcopies.index, ?_, hcopies.reported⟩⟩
      · intro id e he
        rcases matchOrderWith_lookup env _ h.live hfresh hfill.ge he with ⟨e₀, he₀, _⟩ | ⟨rfl, _⟩
        · exact List.mem_cons_of_mem _ (h.indexUsed he₀)
        · exact List.mem_cons_self
      · intro e id he hn
        rcases List.mem_append.mp he with he | he
        · exact List.mem_cons_of_mem _ (h.namedUsed he hn)
        · rcases matchOrderWith_named env _ h.live hfresh hfill.ge he hn with
            rfl | ⟨e₀, he₀, _⟩
          · exact List.mem_cons_self
          · exact List.mem_cons_of_mem _ (h.indexUsed he₀)
      · intro u hu
        rcases List.mem_append.mp hu with hu | hu
        · exact List.mem_cons_of_mem _ (h.reportedUsed hu)
        · rcases matchOrderWith_reported env _ h.live hfresh hfill.ge hu with heq | ⟨e₀, he₀⟩
          · rw [heq]
            exact List.mem_cons_self
          · exact List.mem_cons_of_mem _ (h.indexUsed he₀)
      · intro x hx
        exact Option.some.inj hx ▸ hcopies.caller
      · intro side k x hx
        exact hcopies.index (hs.coherent.indexed hx).1
  | continuousMatch env =>
      have hnoop : s.step (.continuousMatch env) =
          ⟨s.book, s.used, s.executions, s.reported, none⟩ := by
        have hc := continuousMatchWith_uncrossed env (s.book.ordersById.size + 1)
          h.live.coherent h.uncrossed
        simp only [step, continuousMatch, hc, MatchResult.new, List.append_nil]
      rw [hnoop]
      exact ⟨⟨h.live, h.uncrossed, h.indexUsed, h.namedUsed, h.reportedUsed, h.index, h.reported⟩,
        ⟨by simp, h.index, fun hx => h.index (h.live.coherent.indexed hx).1, h.reported⟩⟩

/-- Two partial fills of one order: the market order of quantity 8 is matched for 5 and for 3,
and its filled quantity becomes 13. -/
theorem double_counted_fill : ¬ ∀ (symbol : String) (ops : List FillOp),
    Runs.Admissible step Ok (init symbol) ops → (Runs.run step (init symbol) ops).Accounted := by
  intro hall
  let env : Env := ⟨fun n => n, fun n => toString n⟩
  let order (id : String) (side : OrderSide) (type : OrderType) (price : Option ℚ) (qty : ℕ) :=
    Order.fromRequest "" 0 ⟨some id, "AAPL", side, price, qty, "test_account", type⟩
  let ops : List FillOp :=
    [.matchOrder env (order "sell1" .sell .limit (some 150) 5),
      .matchOrder env (order "sell2" .sell .limit (some 155) 10),
      .matchOrder env (order "buy1" .buy .market none 8)]
  have hacc := hall "AAPL" ops (by decide +kernel)
  have hcaller : (Runs.run step (init "AAPL") ops).caller.map Order.filledQuantity = some 13 := by
    decide +kernel
  have hsum : executedQuantity "buy1" (Runs.run step (init "AAPL") ops).executions = 8 := by
    decide +kernel
  have hname : (Runs.run step (init "AAPL") ops).caller.map Order.orderId = some "buy1" := by
    decide +kernel
  cases hc : (Runs.run step (init "AAPL") ops).caller with
  | none => simp [hc] at hcaller
  | some o =>
      have hagree := (hacc.caller hc).1
      rw [hc, Option.map_some, Option.some.injEq] at hcaller hname
      rw [hcaller, hname, hsum] at hagree
      norm_num at hagree

/-- Along every run whose `match_order` calls each make at most one match, with an order that was
not filled before, every copy of every order agrees with the executions so far and no order is
executed beyond its quantity. -/
theorem run_accounted (symbol : String) (ops : List FillOp)
    (h : Runs.Admissible step (fun s op => s.Ok op ∧ s.SingleFill op) (init symbol) ops) :
    (Runs.run step (init symbol) ops).Accounted := by
  have hinv : (init symbol).Inv ∧ (init symbol).Accounted := by
    have hindex : ∀ {id : String} {o : Order},
        (init symbol).book.ordersById[id]? = some o → False := by
      intro id o ho
      simp [init, OrderBook.new] at ho
    exact ⟨⟨Live.new symbol, uncrossed_new symbol, fun ho => (hindex ho).elim, by simp [init],
      by simp [init], fun ho => (hindex ho).elim, by simp [init, latestCopy]⟩,
      ⟨by simp [init], fun ho => (hindex ho).elim, fun ho => by simp [init] at ho,
        by simp [init, latestCopy]⟩⟩
  exact (Runs.invariant_run (I := fun s => s.Inv ∧ s.Accounted)
    (fun s op hs hok => inv_step s op hs.1 hok) hinv h).2

/-- An offer of 10 that one market order of quantity 4 fills in part. -/
def singleFillRun : List FillOp :=
  let env : Env := ⟨fun n => n, fun n => toString n⟩
  [.matchOrder env
      (Order.fromRequest "" 0 ⟨some "sell1", "AAPL", .sell, some 150, 10, "acc", .limit⟩),
    .matchOrder env (Order.fromRequest "" 0 ⟨some "buy1", "AAPL", .buy, none, 4, "acc", .market⟩),
    .continuousMatch env]

theorem singleFillRun_accounted :
    Runs.Admissible step (fun s op => s.Ok op ∧ s.SingleFill op) (init "AAPL") singleFillRun ∧
      executedQuantity "sell1" (Runs.run step (init "AAPL") singleFillRun).executions = 4 ∧
      (Runs.run step (init "AAPL") singleFillRun).Accounted := by
  have hok : Runs.Admissible step (fun s op => s.Ok op ∧ s.SingleFill op) (init "AAPL")
      singleFillRun := by decide +kernel
  exact ⟨hok, by decide +kernel, run_accounted "AAPL" singleFillRun hok⟩

end Ledger

end ActixPura
