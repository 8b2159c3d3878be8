import ActixPura.MatchingPass

/-!
# The order of placement within one call

The ghost list `placed` holds the ids of all orders in the order in which they were placed. A book
is in placement order when each queue is sorted by it, and a call has time priority when an order
trades only after all orders placed earlier on its level have been completed. From a book in
placement order, a call that meets `KeepsPlaces` has time priority and leaves the book in placement
order: its candidates form a `Line`, and every match takes the next `Turn`.

Nothing is assumed about the quantities of the orders.
-/

namespace ActixPura

open OrderBook OrderMatcher

/-- `x` was placed before `y`. -/
def Earlier (placed : List String) (x y : Order) : Prop :=
  placed.idxOf x.orderId < placed.idxOf y.orderId

/-- Some report shows the order without quantity left. Exactly such orders do not return to the
book after a match. -/
def Completed (reports : List Order) (id : String) : Prop :=
  ∃ u ∈ reports, u.orderId = id ∧ u.remainingQuantity ≤ 0

/-- In the result of a call that started with the book `b` and makes `width` reports for each
match, an order trades only after all orders that were placed earlier on its level have been
completed. -/
def TimePriority (width : ℕ) (placed : List String) (b : OrderBook) (r : MatchResult) : Prop :=
  ∀ l e l', r.executions = l ++ e :: l' → ∀ side k x y, (b.levels side).Holds k x →
    (b.levels side).Holds k y → Earlier placed x y → e.names y.orderId = true →
    Completed (r.updatedOrders.take (width * l.length)) x.orderId

theorem timePriority_new (width : ℕ) (placed : List String) (b : OrderBook) :
    TimePriority width placed b .new := by
  simp [TimePriority, MatchResult.new]

theorem Completed.append {reports : List Order} {id : String} (h : Completed reports id)
    (more : List Order) : Completed (reports ++ more) id := by
  obtain ⟨u, hu, hid⟩ := h
  exact ⟨u, List.mem_append_left _ hu, hid⟩

namespace OrderBook

/-- The queues of all levels are in the order of placement. -/
def InPlacementOrder (placed : List String) (b : OrderBook) : Prop :=
  ∀ ⦃side : OrderSide⦄ ⦃k : ℤ⦄ ⦃q : List Order⦄, (b.levels side)[k]? = some q →
    q.Pairwise (Earlier placed)

namespace InPlacementOrder

variable {placed : List String} {b : OrderBook} {o : Order}

theorem addOrder (h : InPlacementOrder placed b)
    (hlast : o.hasPrice = true → ∀ e, (b.levels o.side).Holds o.priceKey e → Earlier placed e o) :
    InPlacementOrder placed (b.addOrder o).1 := by
  cases ha : b.accepts o with
  | false => rwa [addOrder_rejected ha]
  | true =>
      intro side k q hq
      rcases addOrder_queue ha hq with hq | ⟨hp, rfl, rfl, rfl⟩
      · exact h hq
      · cases hq₀ : (b.levels o.side)[o.priceKey]? with
        | none => simp
        | some q₀ =>
            rw [Option.getD_some, List.pairwise_append]
            refine ⟨h hq₀, List.pairwise_singleton _ _, ?_⟩
            intro e he e' he'
            rw [List.mem_singleton.mp he']
            exact hlast hp e ⟨q₀, hq₀, he⟩

/-- Later placements do not disturb the order of the earlier ones. -/
theorem placing (h : InPlacementOrder placed b) (id : String)
    (hplaced : ∀ {side : OrderSide} {k : ℤ} {e : Order}, (b.levels side).Holds k e →
      e.orderId ∈ placed) : InPlacementOrder (placed ++ [id]) b := by
  intro side k q hq
  apply (h hq).imp_of_mem
  intro x y hx hy hxy
  unfold Earlier
  rwa [List.idxOf_append_of_mem (hplaced ⟨q, hq, hx⟩),
    List.idxOf_append_of_mem (hplaced ⟨q, hq, hy⟩)]

theorem removeOrder (h : InPlacementOrder placed b) (id : String) :
    InPlacementOrder placed (b.removeOrder id).1 := by
  intro side k q hq
  obtain ⟨q₀, hq₀, hsub⟩ := removeOrder_queue hq
  exact (h hq₀).sublist hsub

end InPlacementOrder

end OrderBook

namespace OrderMatcher

variable {env : Env} {placed : List String} {b : OrderBook} {o c : Order} {s t : MatchState}

/-- A list of waiting orders that contains with each order its whole level and takes the orders
of one level in the order of placement. -/
structure Line (placed : List String) (b : OrderBook) (side : OrderSide) (cs : List Order) :
    Prop where
  waiting : ∀ c ∈ cs, (b.levels side).Holds c.priceKey c
  closed : ∀ c ∈ cs, ∀ e, (b.levels side).Holds c.priceKey e → e ∈ cs
  sorted : cs.Pairwise (fun x y => x.priceKey = y.priceKey → Earlier placed x y)

theorem line_traversal (hb : b.Coherent) (h : InPlacementOrder placed b) {side : OrderSide}
    {l : List (ℤ × List Order)} (hl : ∀ e ∈ l, e ∈ (b.levels side).toList)
    (hkeys : l.Pairwise (fun x y => x.1 ≠ y.1)) : Line placed b side (l.flatMap Prod.snd) where
  waiting := by
    intro c hc
    obtain ⟨⟨k, q⟩, hq, hc⟩ := List.mem_flatMap.mp hc
    obtain ⟨rfl, hheld⟩ := level_candidates hb (QueueMap.mem_toList.mp (hl _ hq)) c hc
    exact hheld
  closed := by
    intro c hc e he
    obtain ⟨⟨k, q⟩, hq, hc⟩ := List.mem_flatMap.mp hc
    have hlevel := QueueMap.mem_toList.mp (hl _ hq)
    obtain ⟨rfl, _⟩ := level_candidates hb hlevel c hc
    obtain ⟨q', hq', he⟩ := he
    rw [hlevel, Option.some.injEq] at hq'
    subst q'
    exact List.mem_flatMap.mpr ⟨_, hq, he⟩
  sorted := QueueMap.pairwise_queues Order.priceKey hl hkeys (fun hx => (hb.indexed hx).2.2.2)
    (fun hq => h hq)

theorem line_candidates (hb : b.Coherent) (h : InPlacementOrder placed b) (o : Order) :
    Line placed b o.side.opposite (candidates b o) := by
  have hkeys : ∀ {l : List (ℤ × List Order)}, l.Sublist (b.levels o.side.opposite).toList →
      l.Pairwise (fun x y => x.1 ≠ y.1) := by
    intro l hl
    exact ((QueueMap.pairwise_toList _).sublist hl).imp ne_of_lt
  unfold candidates
  split
  · cases hs : o.side with
    | buy =>
        rw [hs] at hkeys
        exact line_traversal hb h (fun _ he => he) (hkeys (List.Sublist.refl _))
    | sell =>
        rw [hs] at hkeys
        apply line_traversal hb h (l := (b.levels .buy).toList.reverse)
        · exact fun _ he => List.mem_reverse.mp he
        · exact List.pairwise_reverse.mpr ((hkeys (List.Sublist.refl _)).imp Ne.symm)
  · obtain ⟨l, hl, hcand⟩ := limitCandidates_traversal b o.side _
    rw [hcand]
    exact line_traversal hb h (fun _ he => hl.subset he) (hkeys hl)
  · exact ⟨by simp, by simp, List.Pairwise.nil⟩

theorem Line.head_first {side : OrderSide} {cs : List Order} (h : Line placed b side (c :: cs))
    (hb : b.Coherent) : ∀ d ∈ cs, c.orderId ≠ d.orderId := by
  intro d hd heq
  have hci := (hb.indexed (h.waiting c List.mem_cons_self)).1
  have hdi := (hb.indexed (h.waiting d (List.mem_cons_of_mem _ hd))).1
  rw [heq, hdi, Option.some.injEq] at hci
  subst d
  exact absurd ((List.pairwise_cons.mp h.sorted).1 c hd rfl) (lt_irrefl _)

/-- What a pass over the candidates of `o` keeps about the book `b` it started with. The orders
`cs` are still to be visited. -/
structure Turn (placed : List String) (b : OrderBook) (o : Order) (s : MatchState)
    (cs : List Order) : Prop where
  coherent : s.book.Coherent
  ordered : InPlacementOrder placed s.book
  line : Line placed s.book o.side.opposite cs
  orderId : s.order.orderId = o.orderId
  orderType : s.order.orderType = o.orderType
  side : s.order.side = o.side
  orderPrice : s.order.price = o.price
  origin : ∀ {id : String} {e : Order}, s.book.ordersById[id]? = some e →
    ∃ e₀, b.ordersById[id]? = some e₀ ∧ e.side = e₀.side ∧ e.price = e₀.price
  initial : ∀ c ∈ cs, (b.levels o.side.opposite).Holds c.priceKey c
  /-- What waited on a level that is still to be visited is in the line or completed. -/
  covered : ∀ c ∈ cs, ∀ x, (b.levels o.side.opposite).Holds c.priceKey x →
    x ∈ cs ∨ Completed s.result.updatedOrders x.orderId
  reports : s.result.updatedOrders.length = s.result.executions.length
  priority : TimePriority 1 placed b s.result

theorem turn_start (hb : b.Coherent) (h : InPlacementOrder placed b) (o : Order) :
    Turn placed b o (start b o) (candidates b o) where
  coherent := hb
  ordered := h
  line := line_candidates hb h o
  orderId := rfl
  orderType := rfl
  side := rfl
  orderPrice := rfl
  origin he := ⟨_, he, rfl, rfl⟩
  initial := (line_candidates hb h o).waiting
  covered c hc x hx := Or.inl ((line_candidates hb h o).closed c hc x hx)
  reports := rfl
  priority := timePriority_new 1 placed b

section Match

variable {price : ℚ} {cs : List Order}

theorem line_matchCandidate {taker side : OrderSide} (h : Line placed s.book side (c :: cs))
    (hs : s.book.Coherent)
    (hcopy : (filledCopy env s c).remainingQuantity ≤ 0 ∨ ∀ d ∈ cs, d.priceKey ≠ c.priceKey) :
    Line placed (matchCandidate env taker price s c).book side cs := by
  have hne := h.head_first hs
  refine ⟨?_, ?_, (List.pairwise_cons.mp h.sorted).2⟩
  · intro d hd
    exact (holds_matchCandidate_of_ne hs (hne d hd)).mpr
      (h.waiting d (List.mem_cons_of_mem _ hd))
  · intro d hd e he
    obtain ⟨hidx, _, _, hkey⟩ := (coherent_matchCandidate hs).indexed he
    rcases matchCandidate_lookup hidx with ⟨hid, _⟩ | ⟨_, rfl, hpos⟩
    · have he' := (holds_matchCandidate_of_ne hs hid).mp he
      rcases List.mem_cons.mp (h.closed d (List.mem_cons_of_mem _ hd) e he') with rfl | hmem
      · exact absurd rfl hid
      · exact hmem
    · have hlast := hcopy.resolve_left (not_le.mpr hpos) d hd
      rw [filledCopy, fillResting_priceKey] at hkey
      exact absurd hkey.symm hlast

/-- A candidate that returns finds its level empty. -/
theorem ordered_matchCandidate {taker side : OrderSide} (h : Line placed s.book side (c :: cs))
    (hs : s.book.Coherent) (hord : InPlacementOrder placed s.book)
    (hcopy : (filledCopy env s c).remainingQuantity ≤ 0 ∨ ∀ d ∈ cs, d.priceKey ≠ c.priceKey) :
    InPlacementOrder placed (matchCandidate env taker price s c).book := by
  rw [matchCandidate_book]
  have hremoved := hord.removeOrder c.orderId
  rcases reinsert_cases (s.book.removeOrder c.orderId).1 (filledCopy env s c) with
    heq | ⟨hpos, heq⟩
  · rwa [heq]
  · rw [heq]
    apply hremoved.addOrder
    intro _ e he
    have hlast := hcopy.resolve_left (not_le.mpr hpos)
    rw [filledCopy, fillResting_side, fillResting_priceKey, hs.holds_removeOrder,
      (hs.indexed (h.waiting c List.mem_cons_self)).2.1] at he
    rcases List.mem_cons.mp (h.closed c List.mem_cons_self e he.1) with rfl | hmem
    · exact absurd rfl he.2
    · exact absurd (hs.indexed he.1).2.2.2 (hlast e hmem)

/-- Priority after one more execution, when everything placed earlier on the levels it names has
been completed. -/
theorem timePriority_addExecution {r : MatchResult} (h : TimePriority 1 placed b r)
    (hlen : r.updatedOrders.length = r.executions.length) {x : Execution}
    (hx : ∀ side k y z, (b.levels side).Holds k y → (b.levels side).Holds k z →
      Earlier placed y z → x.names z.orderId = true → Completed r.updatedOrders y.orderId) :
    TimePriority 1 placed b (r.addExecution x) := by
  intro l e l' hsplit side k y z hy hz hyz hn
  change Completed (r.updatedOrders.take (1 * l.length)) y.orderId
  rcases Runs.split_snoc hsplit with ⟨rfl, rfl⟩ | ⟨l'', hes⟩
  · rw [one_mul, ← hlen, List.take_length]
    exact hx side k y z hy hz hyz hn
  · exact h l e l'' hes side k y z hy hz hyz hn

/-- A report says nothing about the executions before it. -/
theorem timePriority_addUpdatedOrder {r : MatchResult} (h : TimePriority 1 placed b r)
    (hlen : r.executions.length ≤ r.updatedOrders.length + 1) (u : Order) :
    TimePriority 1 placed b (r.addUpdatedOrder u) := by
  intro l e l' hsplit side k x y hx hy hxy hn
  have hle : 1 * l.length ≤ r.updatedOrders.length := by
    have hcount := congrArg List.length hsplit
    simp only [MatchResult.addUpdatedOrder, List.length_append, List.length_cons] at hcount
    omega
  change Completed ((r.updatedOrders ++ [u]).take (1 * l.length)) x.orderId
  rw [List.take_append_of_le_length hle]
  exact h l e l' hsplit side k x y hx hy hxy hn

/-- The candidate of a turn trades after everything that was placed earlier on its level. -/
theorem Turn.earlier_completed (h : Turn placed b o s (c :: cs)) (hb : b.Coherent)
    (hfresh : b.ordersById[o.orderId]? = none) (n : ℕ) (price qty : ℚ) {side : OrderSide} {k : ℤ}
    {x y : Order} (hx : (b.levels side).Holds k x) (hy : (b.levels side).Holds k y)
    (hxy : Earlier placed x y)
    (hn : (takerRecord env n o.side s.order c price qty).names y.orderId = true) :
    Completed s.result.updatedOrders x.orderId := by
  obtain ⟨hyi, hys, _, hyk⟩ := hb.indexed hy
  obtain ⟨hci, hcs, _, _⟩ := hb.indexed (h.initial c List.mem_cons_self)
  have hyc : y = c := by
    rcases (takerRecord_names _ _ _ _ _ _ _ _).mp hn with hid | hid
    · rw [h.orderId] at hid
      rw [← hid, hfresh] at hyi
      cases hyi
    · rw [← hid, hci] at hyi
      exact (Option.some.inj hyi).symm
  subst y
  rw [← hys, hcs, ← hyk] at hx
  rcases h.covered c List.mem_cons_self x hx with hmem | hdone
  · rcases List.mem_cons.mp hmem with rfl | hmem
    · exact absurd hxy (lt_irrefl _)
    · have hkey := (hb.indexed hx).2.2.2
      have hcx := (List.pairwise_cons.mp h.line.sorted).1 x hmem hkey.symm
      exact absurd hxy hcx.asymm
  · exact hdone

theorem turn_matchCandidate (h : Turn placed b o s (c :: cs)) (hb : b.Coherent)
    (hfresh : b.ordersById[o.orderId]? = none) (hr : 0 < s.remainingQty)
    (hkeep : KeepsPlaces s.remainingQty (c :: cs)) :
    Turn placed b o (matchCandidate env o.side price s c) cs := by
  have hcopy : (filledCopy env s c).remainingQuantity ≤ 0 ∨ ∀ d ∈ cs, d.priceKey ≠ c.priceKey :=
    (keepsPlaces_matchCandidate env o.side price hkeep hr).2.imp_right And.right
  have hcidx := (h.coherent.indexed (h.line.waiting c List.mem_cons_self)).1
  refine ⟨coherent_matchCandidate h.coherent,
    ordered_matchCandidate h.line h.coherent h.ordered hcopy,
    line_matchCandidate h.line h.coherent hcopy, h.orderId, h.orderType, h.side, h.orderPrice,
    ?_, fun d hd => h.initial d (List.mem_cons_of_mem _ hd), ?_, ?_, ?_⟩
  · intro id e he
    rcases matchCandidate_lookup he with ⟨_, he⟩ | ⟨rfl, rfl, _⟩
    · exact h.origin he
    · obtain ⟨c₀, hc₀, hcs, hcp⟩ := h.origin hcidx
      exact ⟨c₀, hc₀, by simpa [filledCopy] using hcs, by simpa [filledCopy] using hcp⟩
  · intro d hd x hx
    rw [matchCandidate_updatedOrders]
    rcases h.covered d (List.mem_cons_of_mem _ hd) x hx with hmem | hdone
    · rcases List.mem_cons.mp hmem with rfl | hmem
      · have hfull := hcopy.resolve_right fun hlast => hlast d hd (hb.indexed hx).2.2.2.symm
        exact Or.inr ⟨_, List.mem_append_right _ (List.mem_singleton_self _),
          by simp [filledCopy], hfull⟩
      · exact Or.inl hmem
    · exact Or.inr (hdone.append _)
  · rw [matchCandidate_updatedOrders, matchCandidate_executions, List.length_append,
      List.length_append, h.reports]
    rfl
  · apply timePriority_addUpdatedOrder
    · apply timePriority_addExecution h.priority h.reports
      intro side k x y hx hy hxy hn
      exact h.earlier_completed hb hfresh _ _ _ hx hy hxy hn
    · simp only [MatchResult.addExecution, List.length_append, List.length_singleton, h.reports]
      omega

theorem Turn.visits {l rest : List Order} (h : Turn placed b o s (l ++ rest)) (hb : b.Coherent)
    (hfresh : b.ordersById[o.orderId]? = none) (hv : Visits env o.side s l t)
    (hkeep : KeepsPlaces s.remainingQty (l ++ rest)) : Turn placed b o t rest := by
  induction hv with
  | stop s => exact h
  | visit price hr _ ih =>
      exact ih (turn_matchCandidate h hb hfresh hr hkeep)
        (keepsPlaces_matchCandidate env o.side price hkeep hr).1

end Match

section Call

variable (env) (fuel : ℕ)

/-- What the matching loops of one call leave under the condition. -/
theorem turn_matchByType (hb : b.Coherent) (h : InPlacementOrder placed b)
    (hfresh : b.ordersById[o.orderId]? = none)
    (hkeep : KeepsPlaces o.remainingQuantity (candidates b o)) :
    ∃ rest, Turn placed b o (matchByType fuel env b o) rest := by
  obtain ⟨l, rest, hsplit, hv, _⟩ := visits_matchByType env fuel hb hkeep.fillsWhole
  have hstart := turn_start hb h o
  rw [hsplit] at hstart hkeep
  exact ⟨rest, hstart.visits hb hfresh hv hkeep⟩

/-- Under the condition a limit order comes to rest on its own side of every opposite order. -/
theorem remainder_clear (hb : b.Coherent)
    (hkeep : KeepsPlaces o.remainingQuantity (candidates b o)) (ht : o.orderType = .limit)
    (hopen : (matchByType fuel env b o).order.isActive = true ∧
      0 < (matchByType fuel env b o).order.remainingQuantity) {p : ℚ} (hp : o.price = some p)
    {k : ℤ} {e : Order}
    (he : ((matchByType fuel env b o).book.levels o.side.opposite).Holds k e) :
    Better o.side o.priceKey k := by
  obtain ⟨l, rest, hsplit, hv, hend⟩ := visits_matchByType env fuel hb hkeep.fillsWhole
  obtain rfl := hend ht hopen.1 hopen.2
  rw [hsplit] at hkeep
  have hqty := hv.open_end (fun _ hpos => hpos) hopen.1 hopen.2
  rw [(hv.removes hkeep.fillsWhole hqty).2] at he
  obtain ⟨he, hgone⟩ := (holds_removeAll hb).mp he
  obtain rfl := (hb.indexed he).2.2.2
  have hkey : o.priceKey = asI64 (p * 100) := by simp only [Order.priceKey, hp, Option.getD_some]
  by_contra hbetter
  have hmem : e ∈ candidates b o := by
    simp only [candidates, ht, hp]
    exact (mem_limitCandidates hb).mpr ⟨he, hkey ▸ hbetter⟩
  rw [hsplit, List.append_nil] at hmem
  exact absurd rfl (hgone e hmem)

theorem timePriority_matchOrderWith (hb : b.Coherent) (h : InPlacementOrder placed b)
    (hfresh : b.ordersById[o.orderId]? = none)
    (hkeep : o.isActive = false ∨ KeepsPlaces o.remainingQuantity (candidates b o)) :
    TimePriority 1 placed b (matchOrderWith fuel env b o).result := by
  have hturn (hact : o.isActive = true) :=
    turn_matchByType env fuel hb h hfresh (hkeep.resolve_left (by simp [hact]))
  rcases matchOrderWith_cases fuel env b o with
    ⟨_, heq⟩ | ⟨hact, _, _, heq⟩ | ⟨hact, _, _, heq⟩ | ⟨hact, heq⟩
  · rw [heq]
    exact timePriority_new 1 placed b
  · obtain ⟨_, ht⟩ := hturn hact
    rw [heq]
    exact ht.priority
  · obtain ⟨_, ht⟩ := hturn hact
    rw [heq]
    exact timePriority_addUpdatedOrder ht.priority (by rw [ht.reports]; omega) _
  · obtain ⟨_, ht⟩ := hturn hact
    rw [heq]
    exact ht.priority

/-- The book after a call: as it was or as the loops leave it, or with the remainder of the
incoming order in it. -/
theorem matchOrderWith_book (b : OrderBook) (o : Order) :
    (o.isActive = false ∧ (matchOrderWith fuel env b o).book = b) ∨
    (o.isActive = true ∧ (matchOrderWith fuel env b o).book = (matchByType fuel env b o).book) ∨
    (o.isActive = true ∧ ((matchByType fuel env b o).order.isActive = true ∧
        0 < (matchByType fuel env b o).order.remainingQuantity) ∧
      (matchByType fuel env b o).order.orderType = .limit ∧
      (matchByType fuel env b o).book.accepts (matchByType fuel env b o).order = true ∧
      (matchOrderWith fuel env b o).book =
        ((matchByType fuel env b o).book.addOrder (matchByType fuel env b o).order).1) := by
  rcases matchOrderWith_cases fuel env b o with
    ⟨hact, heq⟩ | ⟨hact, hopen, hlim, heq⟩ | ⟨hact, _, _, heq⟩ | ⟨hact, heq⟩
  · exact Or.inl ⟨hact, by rw [heq]⟩
  · cases ha : (matchByType fuel env b o).book.accepts (matchByType fuel env b o).order with
    | false => exact Or.inr (Or.inl ⟨hact, by rw [heq, addOrder_rejected ha]⟩)
    | true => exact Or.inr (Or.inr ⟨hact, hopen, hlim, rfl, by rw [heq]⟩)
  · exact Or.inr (Or.inl ⟨hact, by rw [heq]⟩)
  · exact Or.inr (Or.inl ⟨hact, by rw [heq]⟩)

end Call

end OrderMatcher

end ActixPura
