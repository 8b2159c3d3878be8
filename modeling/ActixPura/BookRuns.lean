import ActixPura.LiveBook

/-!
# Coherence along every run of a book

A run starts from an empty book and mixes insertions, removals and both matching entry points.
Every order that is passed in must carry an id not used before in the run and satisfy
`0 ≤ filled_quantity < quantity`. In every state reached the book is live, and each priced order
of the index occurs exactly once in all levels.
-/

namespace ActixPura

open OrderBook OrderMatcher

namespace OrderBook

/-- All level entries of both sides. -/
def entries (b : OrderBook) : List Order := b.buyOrders.entries ++ b.sellOrders.entries

theorem Coherent.nodup_entries {b : OrderBook} (h : Coherent b) :
    (b.entries.map Order.orderId).Nodup := by
  rw [entries, List.map_append, List.nodup_append]
  have hside : ∀ side : OrderSide, ((b.levels side).entries.map Order.orderId).Nodup :=
    fun _ => h.nodup_traversal (List.Sublist.refl _)
  refine ⟨hside .buy, hside .sell, ?_⟩
  intro i hi j hj
  obtain ⟨x, hx, rfl⟩ := List.mem_map.mp hi
  obtain ⟨y, hy, rfl⟩ := List.mem_map.mp hj
  obtain ⟨_, hx⟩ := QueueMap.mem_entries.mp hx
  obtain ⟨_, hy⟩ := QueueMap.mem_entries.mp hy
  exact pair_ids_ne h hx hy

theorem Coherent.mem_entries {b : OrderBook} {side : OrderSide} {k : ℤ} {o : Order}
    (ho : (b.levels side).Holds k o) : o ∈ b.entries := by
  have hmem : o ∈ (b.levels side).entries := QueueMap.mem_entries.mpr ⟨k, ho⟩
  cases side with
  | buy => exact List.mem_append_left _ hmem
  | sell => exact List.mem_append_right _ hmem

end OrderBook

inductive BookOp
  | addOrder (o : Order)
  | removeOrder (id : String)
  | matchOrder (env : Env) (o : Order)
  | continuousMatch (env : Env)

/-- A book with the ids that were passed to it so far. -/
structure BookRun where
  book : OrderBook
  used : List String

namespace BookRun

def init (symbol : String) : BookRun := ⟨.new symbol, []⟩

def step (s : BookRun) : BookOp → BookRun
  | .addOrder o => ⟨(s.book.addOrder o).1, o.orderId :: s.used⟩
  | .removeOrder id => ⟨(s.book.removeOrder id).1, s.used⟩
  | .matchOrder env o => ⟨(OrderMatcher.matchOrder env s.book o).book, o.orderId :: s.used⟩
  | .continuousMatch env => ⟨(OrderMatcher.continuousMatch env s.book).1, s.used⟩

def FreshOrder (s : BookRun) (o : Order) : Prop :=
  o.orderId ∉ s.used ∧ 0 ≤ o.filledQuantity ∧ o.filledQuantity < o.quantity

def Ok (s : BookRun) : BookOp → Prop
  | .addOrder o => s.FreshOrder o
  | .removeOrder _ => True
  | .matchOrder _ o => s.FreshOrder o
  | .continuousMatch _ => True

instance (s : BookRun) (o : Order) : Decidable (s.FreshOrder o) :=
  inferInstanceAs (Decidable (_ ∧ _))

instance (s : BookRun) : ∀ op, Decidable (s.Ok op)
  | .addOrder o => inferInstanceAs (Decidable (s.FreshOrder o))
  | .removeOrder _ => isTrue trivial
  | .matchOrder _ o => inferInstanceAs (Decidable (s.FreshOrder o))
  | .continuousMatch _ => isTrue trivial

structure Inv (s : BookRun) : Prop where
  live : Live s.book
  used : ∀ {id : String} {o : Order}, s.book.ordersById[id]? = some o → id ∈ s.used

theorem Inv.fresh {s : BookRun} (h : s.Inv) {o : Order} (ho : o.orderId ∉ s.used) :
    s.book.ordersById[o.orderId]? = none := by
  cases hid : s.book.ordersById[o.orderId]? with
  | none => rfl
  | some e => exact absurd (h.used hid) ho

theorem inv_step (s : BookRun) (op : BookOp) (h : s.Inv) (hok : s.Ok op) : (s.step op).Inv := by
  cases op with
  | addOrder o =>
      refine ⟨h.live.addOrder (h.fresh hok.1) hok.2, ?_⟩
      intro id e he
      change (s.book.addOrder o).1.ordersById[id]? = some e at he
      cases ha : s.book.accepts o with
      | false =>
          rw [addOrder_rejected ha] at he
          exact List.mem_cons_of_mem _ (h.used he)
      | true =>
          rw [addOrder_lookup ha] at he
          split_ifs at he with hid
          · exact hid ▸ List.mem_cons_self
          · exact List.mem_cons_of_mem _ (h.used he)
  | removeOrder id =>
      refine ⟨h.live.removeOrder id, ?_⟩
      intro id' e he
      change (s.book.removeOrder id).1.ordersById[id']? = some e at he
      rw [removeOrder_lookup] at he
      split_ifs at he
      exact h.used he
  | matchOrder env o =>
      refine ⟨live_matchOrderWith env _ h.live (h.fresh hok.1) hok.2.1, ?_⟩
      intro id e he
      rcases matchOrderWith_lookup env _ h.live (h.fresh hok.1) hok.2.1 he with
        ⟨e₀, he₀, _⟩ | ⟨rfl, _⟩
      · exact List.mem_cons_of_mem _ (h.used he₀)
      · exact List.mem_cons_self
  | continuousMatch env =>
      refine ⟨live_continuousMatchWith env _ h.live, ?_⟩
      intro id e he
      obtain ⟨e₀, he₀, _⟩ := continuousMatchWith_lookup env _ h.live he
      exact h.used he₀

theorem inv_run {symbol : String} {ops : List BookOp}
    (h : Runs.Admissible step Ok (init symbol) ops) : (Runs.run step (init symbol) ops).Inv :=
  Runs.invariant_run inv_step
    ⟨Live.new symbol, fun h => by simp [init, OrderBook.new] at h⟩ h

/-- The price key of an order is truncated *and* saturated: at a price of `10 ^ 18` the order
rests at the largest `i64`, not at `trunc (price * 100)`. -/
theorem saturated_price_level : ¬ ∀ (symbol : String) (ops : List BookOp),
    Runs.Admissible step Ok (init symbol) ops →
    ∀ (id : String) (o : Order) (p : ℚ),
      (Runs.run step (init symbol) ops).book.ordersById[id]? = some o → o.price = some p → 0 < p →
      ((Runs.run step (init symbol) ops).book.levels o.side).Holds (trunc (p * 100)) o := by
  intro hall
  let o : Order := ⟨"b1", "acc", "AAPL", .buy, .limit, 1, some (10 ^ 18), none, .new, 0, 0, 0⟩
  obtain ⟨q, hq, _⟩ := hall "AAPL" [.addOrder o] (by decide +kernel) "b1" o (10 ^ 18)
    (by decide +kernel) rfl (by norm_num)
  have hnone : ((Runs.run step (init "AAPL") [.addOrder o]).book.levels o.side)[trunc
      ((10 ^ 18 : ℚ) * 100)]? = none := by decide +kernel
  rw [hnone] at hq
  cases hq

/-- In every state of every run each priced order of the index occurs exactly once in all levels,
in its side's level for its saturated price key and as an equal copy; every level entry is such
a copy; no level is empty; and every resting order is active with quantity left. -/
theorem run_book_coherent (symbol : String) (ops : List BookOp)
    (h : Runs.Admissible step Ok (init symbol) ops) :
    let b := (Runs.run step (init symbol) ops).book
    (∀ (id : String) (o : Order) (p : ℚ), b.ordersById[id]? = some o → o.price = some p → 0 < p →
      (b.entries.map Order.orderId).count id = 1 ∧
        (b.levels o.side).Holds (asI64 (p * 100)) o) ∧
    (∀ (side : OrderSide) (k : ℤ) (e : Order), (b.levels side).Holds k e →
      ∃ p, b.ordersById[e.orderId]? = some e ∧ e.side = side ∧ e.price = some p ∧ 0 < p ∧
        asI64 (p * 100) = k) ∧
    (∀ (side : OrderSide) (k : ℤ), (b.levels side)[k]? ≠ some []) ∧
    ∀ (id : String) (o : Order), b.ordersById[id]? = some o →
      o.orderId = id ∧ o.isActive = true ∧ 0 < o.remainingQuantity := by
  have hinv := (inv_run h).live
  have hco := hinv.coherent
  dsimp only
  refine ⟨?_, ?_, ?_, ?_⟩
  · intro id o p ho hp hpos
    have hlevel := hco.listed ho (Order.hasPrice_iff.mpr ⟨p, hp, hpos⟩)
    refine ⟨?_, by simpa only [Order.priceKey, hp, Option.getD_some] using hlevel⟩
    apply List.count_eq_one_of_mem hco.nodup_entries
    rw [← hco.index_id ho]
    exact List.mem_map_of_mem (Coherent.mem_entries hlevel)
  · intro side k e he
    obtain ⟨hi, hs, hp, hk⟩ := hco.indexed he
    obtain ⟨p, hp, hpos⟩ := Order.hasPrice_iff.mp hp
    exact ⟨p, hi, hs, hp, hpos, by simpa only [Order.priceKey, hp, Option.getD_some] using hk⟩
  · intro side k hk
    exact hco.noEmpty side k [] hk rfl
  · intro id o ho
    exact ⟨hco.index_id ho, (hinv.resting ho).1, (hinv.resting ho).remaining_pos⟩

/-- A resting sell order that is added, partly filled by a limit order, and followed by a
removal and a continuous match. -/
def partialFillRun : List BookOp :=
  let env : Env := ⟨fun n => n, fun n => toString n⟩
  [.addOrder (Order.fromRequest "" 0 ⟨some "s1", "AAPL", .sell, some 150, 10, "acc", .limit⟩),
    .addOrder (Order.fromRequest "" 0 ⟨some "b1", "AAPL", .buy, some 140, 3, "acc", .limit⟩),
    .matchOrder env
      (Order.fromRequest "" 0 ⟨some "b2", "AAPL", .buy, some 155, 4, "acc", .limit⟩),
    .removeOrder "b1", .continuousMatch env]

theorem partialFillRun_coherent : Runs.Admissible step Ok (init "AAPL") partialFillRun ∧
    ∀ (o : Order) (p : ℚ),
      (Runs.run step (init "AAPL") partialFillRun).book.ordersById["s1"]? = some o →
      o.price = some p → 0 < p →
      ((Runs.run step (init "AAPL") partialFillRun).book.entries.map Order.orderId).count "s1" = 1 ∧
        ((Runs.run step (init "AAPL") partialFillRun).book.levels o.side).Holds
          (asI64 (p * 100)) o := by
  have hok : Runs.Admissible step Ok (init "AAPL") partialFillRun := by decide +kernel
  exact ⟨hok, fun o p => (run_book_coherent "AAPL" partialFillRun hok).1 "s1" o p⟩

end BookRun

end ActixPura
