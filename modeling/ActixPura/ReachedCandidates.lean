import ActixPura.ResidualOrders
import ActixPura.TradeRecords

/-!
# The candidates that an order gets to

`Reached P qty cs` states `P` of the candidates that an order for `qty` gets to: each takes what it
has left, and the order stops when its quantity is used up. The executions of a call are the records
of its matches with exactly these candidates.
-/

namespace ActixPura

open OrderBook

namespace OrderMatcher

def Waiting (b : OrderBook) (r : Order) : Prop := b.ordersById[r.orderId]? = some r

def Reached (P : Order → Prop) : ℚ → List Order → Prop
  | _, [] => True
  | qty, c :: cs => 0 < qty → P c ∧ Reached P (qty - c.remainingQuantity) cs

section Call

variable {env : Env} {b : OrderBook} {o : Order}

theorem waiting_eq (hb : b.Coherent) {side : OrderSide} {k : ℤ} (hc : (b.levels side).Holds k c)
    {r : Order} (hr : Waiting b r) (hid : r.orderId = c.orderId) : r = c := by
  have hidx := (hb.indexed hc).1
  rw [Waiting, hid, hidx, Option.some.injEq] at hr
  exact hr.symm

theorem reached_of_nonpos {P : Order → Prop} {qty : ℚ} (h : qty ≤ 0) (cs : List Order) :
    Reached P qty cs := by
  cases cs with
  | nil => trivial
  | cons c cs => exact fun hpos => absurd h (not_le.mpr hpos)

/-- A pass reaches exactly the orders that it visits. -/
theorem Visits.reached_iff {P : Order → Prop} {taker : OrderSide} {s t : MatchState}
    {l rest : List Order} (hv : Visits env taker s l t) (hend : rest = [] ∨ t.remainingQty ≤ 0) :
    Reached P s.remainingQty (l ++ rest) ↔ ∀ c ∈ l, P c := by
  induction hv with
  | stop s =>
      refine iff_of_true ?_ (by simp)
      rcases hend with rfl | hdone
      · trivial
      · exact reached_of_nonpos hdone rest
  | @visit s t c l price hr hv ih =>
      have hnext : Reached P (s.remainingQty - c.remainingQuantity) (l ++ rest) ↔
          Reached P (matchCandidate env taker price s c).remainingQty (l ++ rest) := by
        rw [matchCandidate_remainingQty, matchQuantity]
        rcases le_total c.remainingQuantity s.remainingQty with hle | hle
        · rw [min_eq_right hle]
        · rw [min_eq_left hle, sub_self]
          exact iff_of_true (reached_of_nonpos (by linarith) _) (reached_of_nonpos le_rfl _)
      rw [List.forall_mem_cons, ← ih hend, ← hnext, List.cons_append, Reached]
      exact ⟨fun h => h hr, fun h _ => h⟩

/-- An execution that names the two ids of a visited order's match records that match. -/
theorem records_of_fills (hb : b.Coherent) {e : Execution} {c c' : Order}
    (hfill : Fills o.orderId e c) (hc : (b.levels o.side.opposite).Holds c.priceKey c)
    (hc' : (b.levels o.side.opposite).Holds c'.priceKey c') (he : Records env o c' e) :
    Records env o c e := by
  obtain ⟨n, qty, rfl⟩ := he
  have hiff : ∀ i, (o.orderId = i ∨ c'.orderId = i) ↔ (o.orderId = i ∨ c.orderId = i) := by
    intro i
    rw [← takerRecord_names env n o.side o c' (execPrice o c') qty i, hfill.names_iff i]
  have hid : c'.orderId = c.orderId := by
    rcases (hiff c'.orderId).mp (Or.inr rfl) with h | h
    · rcases (hiff c.orderId).mpr (Or.inr rfl) with h' | h'
      · exact h.symm.trans h'
      · exact h'
    · exact h.symm
  have hsame : c' = c := waiting_eq hb hc (hb.indexed hc').1 hid
  exact ⟨n, qty, hsame ▸ rfl⟩

theorem exists_of_forall₂ {α β : Type*} {R : α → β → Prop} {l : List α} {l' : List β}
    (h : List.Forall₂ R l l') {x : α} (hx : x ∈ l) : ∃ y ∈ l', R x y := by
  induction h with
  | nil => simp at hx
  | @cons a b l l' hab _ ih =>
      rcases List.mem_cons.mp hx with rfl | hx
      · exact ⟨b, List.mem_cons_self, hab⟩
      · obtain ⟨y, hy, hxy⟩ := ih hx
        exact ⟨y, List.mem_cons_of_mem _ hy, hxy⟩

theorem records_of_forall_fills (hb : b.Coherent) {es : List Execution} {l : List Order}
    (h : List.Forall₂ (Fills o.orderId) es l)
    (hl : ∀ c ∈ l, (b.levels o.side.opposite).Holds c.priceKey c)
    (hes : ∀ e ∈ es, ∃ c, (b.levels o.side.opposite).Holds c.priceKey c ∧ Records env o c e) :
    List.Forall₂ (Records env o) l es := by
  induction h with
  | nil => exact .nil
  | @cons e c es l he _ ih =>
      rw [List.forall_mem_cons] at hl hes
      obtain ⟨c', hc', hrecord⟩ := hes.1
      exact .cons (records_of_fills hb he hl.1 hc' hrecord) (ih hl.2 hes.2)

/-- The executions of a call record its matches with the candidates that it gets to. -/
theorem executions_of_reached (env : Env) (hb : Live b) (hact : o.isActive = true) :
    ∃ l, (∀ c ∈ l, (b.levels o.side.opposite).Holds c.priceKey c) ∧
      (∀ P, Reached P o.remainingQuantity (candidates b o) ↔ ∀ c ∈ l, P c) ∧
      List.Forall₂ (Records env o) l (matchOrder env b o).result.executions := by
  have hrecorded : ∀ e ∈ (matchOrder env b o).result.executions, _ :=
    fun e he => records_matchOrderWith _ env hb.coherent he
  obtain ⟨l, rest, hsplit, hv, hend⟩ :=
    visits_exhaust env hb hact (Nat.lt_succ_self (restingCount b))
  have hheld : ∀ c ∈ l, (b.levels o.side.opposite).Holds c.priceKey c := fun c hc =>
    holds_of_mem_candidates hb.coherent (hsplit ▸ List.mem_append_left _ hc)
  obtain ⟨es, hes, hfills, -⟩ := hv.executions fun c hc =>
    (hb.resting_of_holds (hheld c hc)).remaining_pos
  have hexec : (matchOrder env b o).result.executions = es :=
    (matchOrderWith_executions _ env b hact).trans hes
  rw [hexec] at hrecorded ⊢
  refine ⟨l, hheld, fun P => ?_, records_of_forall_fills hb.coherent hfills hheld hrecorded⟩
  rw [hsplit]
  exact hv.reached_iff hend

end Call

end OrderMatcher

end ActixPura
