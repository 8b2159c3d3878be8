import ActixPura.FillAccounting

/-!
# Passes over the waiting orders

Both kinds of loop in `match_order` match waiting orders one after another. `Visits s l t` states
that `t` is reached from `s` by matching the orders of `l` in turn, at some prices and while
quantity is left. A limit order visits an initial part of its snapshot. A market order takes a
new snapshot in every round, and it visits an initial part of the best-first sequence of the book
it started with as long as it meets `KeepsPlaces`.

`KeepsPlaces` is a condition on the candidates before the call. It excludes that an order with
quantity left returns to its level behind a later one.
-/

namespace ActixPura

open OrderBook

namespace OrderMatcher

/-- No candidate is left with quantity while a later one waits on its level: a candidate that is
traded whole was not filled below zero before, and one that is traded in part is then done
according to the doubled fill, or it is the last of its level. -/
def KeepsPlaces : ℚ → List Order → Prop
  | _, [] => True
  | qty, c :: cs => qty ≤ 0 ∨
      if c.remainingQuantity ≤ qty then
        0 ≤ c.filledQuantity ∧ KeepsPlaces (qty - c.remainingQuantity) cs
      else c.remainingQuantity ≤ c.filledQuantity + qty ∨ ∀ d ∈ cs, d.priceKey ≠ c.priceKey

instance decidableKeepsPlaces : ∀ qty cs, Decidable (KeepsPlaces qty cs)
  | _, [] => isTrue trivial
  | qty, c :: cs =>
    haveI := decidableKeepsPlaces (qty - c.remainingQuantity) cs
    inferInstanceAs (Decidable (_ ∨ ite _ _ _))

theorem keepsPlaces_of_nonpos {qty : ℚ} (h : qty ≤ 0) (cs : List Order) : KeepsPlaces qty cs := by
  cases cs with
  | nil => trivial
  | cons c cs => exact Or.inl h

/-- A candidate that is traded whole was not filled below zero before, so it does not return. -/
def FillsWhole : ℚ → List Order → Prop
  | _, [] => True
  | qty, c :: cs => qty ≤ 0 ∨ (c.remainingQuantity ≤ qty →
      0 ≤ c.filledQuantity ∧ FillsWhole (qty - c.remainingQuantity) cs)

theorem KeepsPlaces.fillsWhole {qty : ℚ} {cs : List Order} (h : KeepsPlaces qty cs) :
    FillsWhole qty cs := by
  induction cs generalizing qty with
  | nil => trivial
  | cons c cs ih =>
      rw [KeepsPlaces] at h
      refine h.imp id fun hc hle => ?_
      rw [if_pos hle] at hc
      exact ⟨hc.1, ih hc.2⟩

theorem fillsWhole_of_nonneg {qty : ℚ} {cs : List Order} (h : ∀ c ∈ cs, 0 ≤ c.filledQuantity) :
    FillsWhole qty cs := by
  induction cs generalizing qty with
  | nil => trivial
  | cons c cs ih =>
      refine Or.inr fun _ => ⟨h c List.mem_cons_self, ih fun d hd => ?_⟩
      exact h d (List.mem_cons_of_mem _ hd)

inductive Visits (env : Env) (taker : OrderSide) : MatchState → List Order → MatchState → Prop
  | stop (s : MatchState) : Visits env taker s [] s
  | visit {s t : MatchState} {c : Order} {l : List Order} (price : ℚ) (hr : 0 < s.remainingQty)
      (h : Visits env taker (matchCandidate env taker price s c) l t) :
      Visits env taker s (c :: l) t

section Visiting

variable {env : Env} {taker : OrderSide} {s t u : MatchState} {c : Order} {l : List Order}

theorem Visits.append {l' : List Order} (h : Visits env taker s l t)
    (h' : Visits env taker t l' u) : Visits env taker s (l ++ l') u := by
  induction h with
  | stop s => exact h'
  | visit price hr _ ih => exact .visit price hr (ih h')

theorem Visits.open_start (h : Visits env taker s l t) (ht : 0 < t.remainingQty) :
    0 < s.remainingQty := by
  cases h with
  | stop => exact ht
  | visit price hr _ => exact hr

/-- After a pass with an order that may still rest there is quantity left to match. -/
theorem Visits.open_end (hv : Visits env taker s l t)
    (hs : s.order.isActive = true → 0 < s.order.remainingQuantity → 0 < s.remainingQty)
    (ha : t.order.isActive = true) (hr : 0 < t.order.remainingQuantity) : 0 < t.remainingQty := by
  induction hv with
  | stop s => exact hs ha hr
  | visit price _ _ ih => exact ih (fun hact _ => matchCandidate_isActive.mp hact) ha hr

theorem visits_matchCandidates (env : Env) (taker : OrderSide) (s : MatchState) (q : List Order) :
    ∃ l rest, q = l ++ rest ∧ Visits env taker s l (matchCandidates env taker s q) ∧
      (rest = [] ∨ (matchCandidates env taker s q).remainingQty ≤ 0 ∨
        (matchCandidates env taker s q).order.isActive = false) := by
  induction q generalizing s with
  | nil => exact ⟨[], [], rfl, .stop s, Or.inl rfl⟩
  | cons c q ih =>
      rw [matchCandidates]
      split_ifs with hstop
      · exact ⟨[], c :: q, rfl, .stop s, Or.inr hstop⟩
      · rw [not_or, not_le] at hstop
        obtain ⟨l, rest, rfl, hv, hend⟩ := ih (matchCandidate env taker (c.price.getD 0) s c)
        exact ⟨c :: l, rest, rfl, .visit _ hstop.1 hv, hend⟩

theorem visits_matchLevel (env : Env) (taker : OrderSide) (price : ℚ) (q : List Order)
    (hr : 0 < s.remainingQty) :
    ∃ l rest, q = l ++ rest ∧ Visits env taker s l (matchLevel env taker price s q) ∧
      (0 < (matchLevel env taker price s q).remainingQty → rest = []) := by
  induction q generalizing s with
  | nil => exact ⟨[], [], rfl, .stop s, fun _ => rfl⟩
  | cons c q ih =>
      rw [matchLevel]
      split_ifs with hle
      · exact ⟨[c], q, rfl, .visit price hr (.stop _), fun hpos => absurd hle (not_le.mpr hpos)⟩
      · obtain ⟨l, rest, rfl, hv, hend⟩ := ih (not_le.mp hle)
        exact ⟨c :: l, rest, rfl, .visit price hr hv, hend⟩

/-- One match under the condition: the candidate leaves the book, or it returns to an empty level
and the incoming order is done. -/
theorem keepsPlaces_matchCandidate (env : Env) (taker : OrderSide) (price : ℚ) {cs : List Order}
    (h : KeepsPlaces s.remainingQty (c :: cs)) (hr : 0 < s.remainingQty) :
    KeepsPlaces (matchCandidate env taker price s c).remainingQty cs ∧
      ((filledCopy env s c).remainingQuantity ≤ 0 ∨
        (matchCandidate env taker price s c).remainingQty ≤ 0 ∧
          ∀ d ∈ cs, d.priceKey ≠ c.priceKey) := by
  have hcopy : (filledCopy env s c).remainingQuantity =
      c.remainingQuantity - c.filledQuantity - matchQuantity s c := by
    rw [filledCopy, fillResting_remainingQuantity, Order.remainingQuantity]
    ring
  rw [matchCandidate_remainingQty, hcopy]
  rw [KeepsPlaces] at h
  replace h := h.resolve_left (not_le.mpr hr)
  split_ifs at h with hle
  · rw [matchQuantity, min_eq_right hle]
    exact ⟨h.2, Or.inl (by linarith [h.1])⟩
  · rw [matchQuantity, min_eq_left (not_le.mp hle).le, sub_self]
    refine ⟨keepsPlaces_of_nonpos le_rfl cs, ?_⟩
    rcases h with hfull | hlast
    · exact Or.inl (by linarith)
    · exact Or.inr ⟨le_rfl, hlast⟩

theorem matchCandidate_book_of_full {price : ℚ} (h : (filledCopy env s c).remainingQuantity ≤ 0) :
    (matchCandidate env taker price s c).book = (s.book.removeOrder c.orderId).1 := by
  rw [matchCandidate_book, reinsert, if_pos h]

end Visiting

section Removal

variable {b : OrderBook} {l : List Order} {side : OrderSide} {k : ℤ}

def removeAll (b : OrderBook) (l : List Order) : OrderBook :=
  l.foldl (fun b c => (b.removeOrder c.orderId).1) b

theorem coherent_removeAll (h : b.Coherent) : (removeAll b l).Coherent := by
  induction l generalizing b with
  | nil => exact h
  | cons c l ih => exact ih (h.removeOrder c.orderId)

theorem holds_removeAll (h : b.Coherent) {e : Order} :
    ((removeAll b l).levels side).Holds k e ↔
      (b.levels side).Holds k e ∧ ∀ c ∈ l, e.orderId ≠ c.orderId := by
  induction l generalizing b with
  | nil => simp [removeAll]
  | cons c l ih =>
      rw [removeAll, List.foldl_cons, ← removeAll, ih (h.removeOrder c.orderId),
        h.holds_removeOrder, List.forall_mem_cons, and_assoc]

theorem removeAll_other_level (h : ∀ c ∈ l, ∀ e, b.ordersById[c.orderId]? = some e →
    e.priceKey ≠ k) : ((removeAll b l).levels side)[k]? = (b.levels side)[k]? := by
  induction l generalizing b with
  | nil => rfl
  | cons c l ih =>
      rw [removeAll, List.foldl_cons, ← removeAll, ih]
      · cases hid : b.ordersById[c.orderId]? with
        | none => simp [removeOrder, hid]
        | some e =>
            rw [removeOrder_levels b c.orderId hid]
            split_ifs
            · rw [QueueMap.getElem?_retain, if_neg (h c List.mem_cons_self e hid)]
            · rfl
      · intro d hd e he
        rw [removeOrder_lookup] at he
        split_ifs at he
        exact h d (List.mem_cons_of_mem _ hd) e he

/-- Removing the whole queue of a level removes the level. -/
theorem removeAll_queue (h : b.Coherent) {q : List Order} (hq : (b.levels side)[k]? = some q) :
    (removeAll b q).levels side = (b.levels side).erase k := by
  apply Std.ExtTreeMap.ext_getElem?
  intro k'
  rw [Std.ExtTreeMap.getElem?_erase]
  by_cases hk : k = k'
  · subst k'
    rw [if_pos (by simp)]
    cases hq' : ((removeAll b q).levels side)[k]? with
    | none => rfl
    | some q' =>
        obtain ⟨e, he⟩ := List.exists_mem_of_ne_nil q' ((coherent_removeAll h).noEmpty _ k q' hq')
        obtain ⟨⟨q₀, hq₀, he₀⟩, hgone⟩ := (holds_removeAll h).mp ⟨q', hq', he⟩
        rw [hq, Option.some.injEq] at hq₀
        subst q₀
        exact absurd rfl (hgone e he₀)
  · rw [if_neg (by simpa using hk)]
    apply removeAll_other_level
    intro c hc e he
    obtain ⟨hidx, _, _, hkey⟩ := h.indexed ⟨q, hq, hc⟩
    rw [hidx, Option.some.injEq] at he
    rw [← he, hkey]
    exact hk

end Removal

section Passes

variable {env : Env} {taker : OrderSide} {s t : MatchState} {l : List Order}

/-- While the incoming order has quantity left, a candidate was traded whole and is gone. -/
theorem fillsWhole_matchCandidate (env : Env) (taker : OrderSide) (price : ℚ) {c : Order}
    {cs : List Order} (h : FillsWhole s.remainingQty (c :: cs)) (hr : 0 < s.remainingQty)
    (hopen : 0 < (matchCandidate env taker price s c).remainingQty) :
    FillsWhole (matchCandidate env taker price s c).remainingQty cs ∧
      (filledCopy env s c).remainingQuantity ≤ 0 := by
  rw [matchCandidate_remainingQty] at hopen ⊢
  have hwhole := matchQuantity_eq_remaining hopen
  have hle : c.remainingQuantity ≤ s.remainingQty := by
    rw [← hwhole]
    exact min_le_left _ _
  obtain ⟨hfilled, hrest⟩ := h.resolve_left (not_le.mpr hr) hle
  rw [filledCopy, fillResting_remainingQuantity, hwhole, Order.remainingQuantity]
  exact ⟨hrest, by linarith⟩

/-- A pass that leaves the incoming order with quantity has removed what it visited. -/
theorem Visits.removes {rest : List Order} (hv : Visits env taker s l t)
    (h : FillsWhole s.remainingQty (l ++ rest)) (hopen : 0 < t.remainingQty) :
    FillsWhole t.remainingQty rest ∧ t.book = removeAll s.book l := by
  induction hv with
  | stop s => exact ⟨h, rfl⟩
  | visit price hr hv ih =>
      obtain ⟨hrest, hfull⟩ := fillsWhole_matchCandidate env taker price h hr (hv.open_start hopen)
      rw [removeAll, List.foldl_cons, ← removeAll, ← matchCandidate_book_of_full hfull]
      exact ih hrest hopen

/-- The rounds of a market order follow the best-first sequence of the book before the first one. -/
theorem visits_market (env : Env) (fuel : ℕ) (hs : s.book.Coherent)
    (h : FillsWhole s.remainingQty (bestFirst s.book taker)) :
    ∃ l rest, bestFirst s.book taker = l ++ rest ∧
      Visits env taker s l (Runs.loop (marketRound env taker) fuel s) := by
  induction fuel generalizing s with
  | zero => exact ⟨[], _, rfl, .stop s⟩
  | succ fuel ih =>
      cases hround : marketRound env taker s with
      | none =>
          rw [Runs.loop_succ_of_none hround]
          exact ⟨[], _, rfl, .stop s⟩
      | some s' =>
          obtain ⟨hr, _, k, q, _, hq, hbest, rfl⟩ := marketRound_some hs hround
          rw [Runs.loop_succ_of_some hround]
          have hfirst := bestFirst_of_level hs hq hbest
          obtain ⟨l, rest, hsplit, hv, hend⟩ := visits_matchLevel env taker (k / 100) q hr
          by_cases hopen : 0 < (matchLevel env taker (k / 100) s q).remainingQty
          · rw [hend hopen, List.append_nil] at hsplit
            subst l
            rw [hfirst] at h
            obtain ⟨hkeep, hbook⟩ := hv.removes h hopen
            have hnext : bestFirst (matchLevel env taker (k / 100) s q).book taker =
                bestFirst (s.book.setLevels taker.opposite
                  ((s.book.levels taker.opposite).erase k)) taker := by
              apply bestFirst_congr
              rw [hbook, removeAll_queue hs hq, levels_setLevels, if_pos rfl]
            rw [← hnext] at hkeep
            obtain ⟨l', rest', hsplit', hv'⟩ := ih (hbook ▸ coherent_removeAll hs) hkeep
            refine ⟨q ++ l', rest', ?_, hv.append hv'⟩
            rw [hfirst, ← hnext, hsplit', List.append_assoc]
          · have hdone : marketRound env taker (matchLevel env taker (k / 100) s q) = none := by
              simp [marketRound, hopen]
            rw [Runs.loop_succ_of_none hdone]
            rw [hfirst, hsplit, List.append_assoc]
            exact ⟨l, _, rfl, hsplit ▸ hv⟩

/-- `match_order` visits an initial part of its candidates, and all of them before a limit order
comes to rest. -/
theorem visits_matchByType (env : Env) (fuel : ℕ) {b : OrderBook} {o : Order} (hb : b.Coherent)
    (h : FillsWhole o.remainingQuantity (candidates b o)) :
    ∃ l rest, candidates b o = l ++ rest ∧
      Visits env o.side (start b o) l (matchByType fuel env b o) ∧
      (o.orderType = .limit → (matchByType fuel env b o).order.isActive = true →
        0 < (matchByType fuel env b o).order.remainingQuantity → rest = []) := by
  rcases matchByType_cases fuel env b o with ⟨ht, he⟩ | ⟨p, ht, hp, he⟩ | ⟨hm, hnone, he⟩
  · rw [he]
    have hcand : candidates b o = bestFirst b o.side := by simp only [candidates, ht]
    rw [hcand] at h ⊢
    obtain ⟨l, rest, hsplit, hv⟩ := visits_market env (s := start b o) fuel hb h
    refine ⟨l, rest, hsplit, hv, fun hl => ?_⟩
    rw [ht] at hl
    cases hl
  · rw [he]
    have hcand : candidates b o = limitCandidates b o.side p := by simp only [candidates, ht, hp]
    rw [hcand]
    obtain ⟨l, rest, hsplit, hv, hend⟩ :=
      visits_matchCandidates env o.side (start b o) (limitCandidates b o.side p)
    refine ⟨l, rest, hsplit, hv, fun _ hact hr => ?_⟩
    rcases hend with hnil | hdone | hinactive
    · exact hnil
    · exact absurd (hv.open_end (fun _ hpos => hpos) hact hr) (not_lt.mpr hdone)
    · rw [hinactive] at hact
      cases hact
  · rw [he]
    refine ⟨[], _, rfl, .stop _, fun hl _ _ => ?_⟩
    simp only [hl, hnone hl]

end Passes

end OrderMatcher

end ActixPura
