import ActixPura.PhantomOrders
import ActixPura.TradeRecords

/-!
# `update_order` and the readers of the two copies

`update_order` changes a clone, stores it in the index, and leaves the level entry as it was, unless
the order became inactive and both are removed. Depth and the matching getters read the levels, the
summary reads the index. `AgreeBy f` compares the two copies by what `f` reads of them. It holds all
along a run of updates exactly when every update that leaves a priced order active keeps `f`.

The `values` of the index are listed in the order of their keys here; the source leaves the order
open, and only sums are taken of them.
-/

namespace ActixPura

open OrderBook

/-- The arguments of a call of `update_order`, and the clock reading that it stores. -/
structure Update where
  orderId : String
  status : OrderStatus
  filledQuantity : Option ℚ
  now : DateTime

def Update.apply (u : Update) (o : Order) : Order :=
  let order := o.updateStatus u.status u.now
  match u.filledQuantity with
  | some qty => order.updateFilledQuantity qty u.now
  | none => order

namespace OrderBook

def updateOrder (b : OrderBook) (u : Update) : OrderBook × Option Order :=
  match b.ordersById[u.orderId]? with
  | none => (b, none)
  | some o =>
    let order := u.apply o
    let b' := b.setIndex (b.ordersById.insert u.orderId order)
    (if order.isActive then b' else (b'.removeOrder u.orderId).1, some order)

/-- The loop of `buy_depth` and `sell_depth` over the levels, best price first. -/
def cumulate : ℚ → List (ℤ × List Order) → List (ℚ × ℚ)
  | _, [] => []
  | totalQty, (priceKey, orders) :: levels =>
    let qty := (orders.map Order.remainingQuantity).sum
    ((priceKey : ℚ) / 100, totalQty + qty) :: cumulate (totalQty + qty) levels

def buyDepth (b : OrderBook) : List (ℚ × ℚ) := cumulate 0 b.buyOrders.toList.reverse

def sellDepth (b : OrderBook) : List (ℚ × ℚ) := cumulate 0 b.sellOrders.toList

def depth (b : OrderBook) : OrderSide → List (ℚ × ℚ)
  | .buy => b.buyDepth
  | .sell => b.sellDepth

def getAllActiveOrders (b : OrderBook) : List Order :=
  (b.ordersById.toList.map Prod.snd).filter Order.isActive

def getActiveBuyOrders (b : OrderBook) : List Order :=
  (b.ordersById.toList.map Prod.snd).filter fun o => o.isActive && o.side == .buy

def getActiveSellOrders (b : OrderBook) : List Order :=
  (b.ordersById.toList.map Prod.snd).filter fun o => o.isActive && o.side == .sell

def activeOrders (b : OrderBook) : OrderSide → List Order
  | .buy => b.getActiveBuyOrders
  | .sell => b.getActiveSellOrders

def buyVolume (b : OrderBook) : ℚ := (b.getActiveBuyOrders.map Order.remainingQuantity).sum

def sellVolume (b : OrderBook) : ℚ := (b.getActiveSellOrders.map Order.remainingQuantity).sum

end OrderBook

structure OrderBookSummary where
  symbol : String
  buyOrdersCount : ℕ
  sellOrdersCount : ℕ
  bestBuyPrice : Option ℚ
  bestSellPrice : Option ℚ
  buyVolume : ℚ
  sellVolume : ℚ

def OrderBook.getSummary (b : OrderBook) : OrderBookSummary where
  symbol := b.symbol
  buyOrdersCount := b.getActiveBuyOrders.length
  sellOrdersCount := b.getActiveSellOrders.length
  bestBuyPrice := b.bestBuyPrice
  bestSellPrice := b.bestSellPrice
  buyVolume := b.buyVolume
  sellVolume := b.sellVolume

def OrderBookSummary.volume (s : OrderBookSummary) : OrderSide → ℚ
  | .buy => s.buyVolume
  | .sell => s.sellVolume

namespace OrderBook

section Readers

variable {b : OrderBook} {side : OrderSide}

theorem mem_activeOrders {o : Order} : o ∈ b.activeOrders side ↔
    (∃ id : String, b.ordersById[id]? = some o) ∧ o.isActive = true ∧ o.side = side := by
  cases side <;> simp [activeOrders, getActiveBuyOrders, getActiveSellOrders,
    Std.ExtTreeMap.mem_toList_iff_getElem?_eq_some]

theorem summary_volume (b : OrderBook) (side : OrderSide) : b.getSummary.volume side =
    ((b.activeOrders side).map Order.remainingQuantity).sum := by
  cases side <;> rfl

/-- The last entry of a depth is the total of the levels. -/
theorem cumulate_last (totalQty : ℚ) (levels : List (ℤ × List Order)) :
    ((cumulate totalQty levels).getLast?.map Prod.snd).getD totalQty =
      totalQty + ((levels.flatMap Prod.snd).map Order.remainingQuantity).sum := by
  induction levels generalizing totalQty with
  | nil => simp [cumulate]
  | cons level levels ih =>
      obtain ⟨priceKey, orders⟩ := level
      have hrest := ih (totalQty + (orders.map Order.remainingQuantity).sum)
      rw [cumulate, List.flatMap_cons, List.map_append, List.sum_append, ← add_assoc, ← hrest]
      cases hl : cumulate (totalQty + (orders.map Order.remainingQuantity).sum) levels with
      | nil => rfl
      | cons d ds =>
          rw [List.getLast?_cons_cons]
          cases hlast : (d :: ds).getLast? with
          | none => simp at hlast
          | some last => rfl

def depthTotal (b : OrderBook) (side : OrderSide) : ℚ :=
  ((b.depth side).getLast?.map Prod.snd).getD 0

theorem depthTotal_eq (b : OrderBook) (side : OrderSide) :
    b.depthTotal side = ((b.levels side).entries.map Order.remainingQuantity).sum := by
  cases side with
  | buy =>
      have h := cumulate_last 0 b.buyOrders.toList.reverse
      rw [zero_add] at h
      refine h.trans ((List.Perm.map _ ?_).sum_eq)
      exact (List.reverse_perm _).flatMap_right _
  | sell =>
      have h := cumulate_last 0 b.sellOrders.toList
      rwa [zero_add] at h

end Readers

/-- The two copies of an order have the same terms, and the same places, whatever their fill states
are. -/
structure Paired (b : OrderBook) : Prop where
  index_id : ∀ (id : String) (o : Order), b.ordersById[id]? = some o → o.orderId = id
  active : ∀ (id : String) (o : Order), b.ordersById[id]? = some o → o.isActive = true
  listed : ∀ (id : String) (o : Order), b.ordersById[id]? = some o → o.hasPrice = true →
    ∃ e, (b.levels o.side).Holds o.priceKey e ∧ e.orderId = id
  placed : ∀ (side : OrderSide) (k : ℤ) (e : Order), (b.levels side).Holds k e →
    ∃ o, b.ordersById[e.orderId]? = some o ∧ o.terms = e.terms ∧ e.side = side ∧
      e.hasPrice = true ∧ e.priceKey = k
  nodup : ∀ (side : OrderSide) (k : ℤ) (q : List Order), (b.levels side)[k]? = some q →
    (q.map Order.orderId).Nodup

/-- A level entry and the indexed order of its id agree on `f`. -/
def AgreeBy {α : Type*} (f : Order → α) (b : OrderBook) : Prop :=
  ∀ (side : OrderSide) (k : ℤ) (e : Order), (b.levels side).Holds k e →
    ∃ o, b.ordersById[e.orderId]? = some o ∧ f o = f e

/-- The update makes a priced order of the book inactive, or it keeps `f` of it. -/
def KeepsBy {α : Type*} (f : Order → α) (b : OrderBook) (u : Update) : Prop :=
  ∀ o, b.ordersById[u.orderId]? = some o → o.hasPrice = true →
    (u.apply o).isActive = false ∨ f (u.apply o) = f o

def update (b : OrderBook) (u : Update) : OrderBook := (b.updateOrder u).1

section Updates

variable {b : OrderBook} {u : Update} {o : Order}

theorem apply_terms (u : Update) (o : Order) : (u.apply o).terms = o.terms := by
  unfold Update.apply
  cases u.filledQuantity <;> rfl

theorem update_absent (h : b.ordersById[u.orderId]? = none) : b.update u = b := by
  simp only [update, updateOrder, h]

theorem update_active_levels (h : b.ordersById[u.orderId]? = some o)
    (ha : (u.apply o).isActive = true) (side : OrderSide) :
    (b.update u).levels side = b.levels side := by
  simp only [update, updateOrder, h, ha, if_true, setIndex_levels]

theorem update_active_lookup (h : b.ordersById[u.orderId]? = some o)
    (ha : (u.apply o).isActive = true) (id : String) : (b.update u).ordersById[id]? =
      if u.orderId = id then some (u.apply o) else b.ordersById[id]? := by
  simp only [update, updateOrder, h, ha, if_true, setIndex_ordersById]
  rw [Std.ExtTreeMap.getElem?_insert]
  simp

theorem update_inactive_lookup (h : b.ordersById[u.orderId]? = some o)
    (ha : (u.apply o).isActive = false) (id : String) :
    (b.update u).ordersById[id]? = if u.orderId = id then none else b.ordersById[id]? := by
  simp only [update, updateOrder, h, ha, Bool.false_eq_true, if_false]
  rw [removeOrder_lookup, setIndex_ordersById, Std.ExtTreeMap.getElem?_insert]
  by_cases hid : u.orderId = id
  · rw [if_pos hid, if_pos hid]
  · rw [if_neg hid, if_neg hid, if_neg (by simpa using hid)]

theorem update_inactive_levels (h : b.ordersById[u.orderId]? = some o)
    (ha : (u.apply o).isActive = false) (side : OrderSide) :
    (b.update u).levels side = (b.removeOrder u.orderId).1.levels side := by
  have hterms := apply_terms u o
  have hstored : (b.setIndex (b.ordersById.insert u.orderId (u.apply o))).ordersById[u.orderId]? =
      some (u.apply o) := by simp
  simp only [update, updateOrder, h, ha, Bool.false_eq_true, if_false]
  rw [removeOrder_levels _ _ hstored, removeOrder_levels _ _ h, setIndex_levels,
    Order.side_of_terms hterms, Order.priceKey_of_terms hterms]

/-- A removal takes out the only entry of its id. -/
theorem Paired.holds_removeOrder (h : Paired b) {id : String} {side : OrderSide} {k : ℤ} {e : Order}
    (he : ((b.removeOrder id).1.levels side).Holds k e) :
    (b.levels side).Holds k e ∧ e.orderId ≠ id := by
  have hold := holds_of_removeOrder he
  refine ⟨hold, ?_⟩
  rintro rfl
  obtain ⟨o, hidx, hterms, hside, -, hkey⟩ := h.placed side k e hold
  rw [removeOrder_levels b _ hidx, if_pos (by rw [Order.side_of_terms hterms, hside])] at he
  have hgone := ((QueueMap.holds_retain _ _ _ _ _).mp he).2
  rw [Order.priceKey_of_terms hterms] at hgone
  simpa using hgone hkey.symm

theorem Paired.update_active (h : Paired b) (hidx : b.ordersById[u.orderId]? = some o)
    (ha : (u.apply o).isActive = true) : Paired (b.update u) := by
  have hterms := apply_terms u o
  refine ⟨?_, ?_, ?_, ?_, ?_⟩
  · intro id e he
    rw [update_active_lookup hidx ha] at he
    split_ifs at he with hsame
    · rw [← Option.some.inj he, Order.orderId_of_terms hterms, ← hsame]
      exact h.index_id _ o hidx
    · exact h.index_id id e he
  · intro id e he
    rw [update_active_lookup hidx ha] at he
    split_ifs at he with hsame
    · rwa [← Option.some.inj he]
    · exact h.active id e he
  · intro id e he hp
    rw [update_active_lookup hidx ha] at he
    rw [update_active_levels hidx ha]
    split_ifs at he with hsame
    · rw [← Option.some.inj he, Order.hasPrice_of_terms hterms] at hp
      rw [← Option.some.inj he, Order.side_of_terms hterms, Order.priceKey_of_terms hterms, ← hsame]
      exact h.listed _ o hidx hp
    · exact h.listed id e he hp
  · intro side k e he
    rw [update_active_levels hidx ha] at he
    rw [update_active_lookup hidx ha]
    obtain ⟨o₀, hidx₀, hterms₀, hrest⟩ := h.placed side k e he
    split_ifs with hsame
    · rw [← hsame, hidx, Option.some.injEq] at hidx₀
      exact ⟨_, rfl, hterms.trans (hidx₀ ▸ hterms₀), hrest⟩
    · exact ⟨o₀, hidx₀, hterms₀, hrest⟩
  · intro side k q hq
    rw [update_active_levels hidx ha] at hq
    exact h.nodup side k q hq

theorem Paired.update_inactive (h : Paired b) (hidx : b.ordersById[u.orderId]? = some o)
    (ha : (u.apply o).isActive = false) : Paired (b.update u) := by
  refine ⟨?_, ?_, ?_, ?_, ?_⟩
  · intro id e he
    rw [update_inactive_lookup hidx ha] at he
    split_ifs at he
    exact h.index_id id e he
  · intro id e he
    rw [update_inactive_lookup hidx ha] at he
    split_ifs at he
    exact h.active id e he
  · intro id e he hp
    rw [update_inactive_lookup hidx ha] at he
    rw [update_inactive_levels hidx ha]
    split_ifs at he with hne
    obtain ⟨e₀, he₀, hid₀⟩ := h.listed id e he hp
    exact ⟨e₀, holds_removeOrder_of_ne (by rw [hid₀]; exact Ne.symm hne) he₀, hid₀⟩
  · intro side k e he
    rw [update_inactive_levels hidx ha] at he
    obtain ⟨hold, hne⟩ := h.holds_removeOrder he
    rw [update_inactive_lookup hidx ha, if_neg (Ne.symm hne)]
    exact h.placed side k e hold
  · intro side k q hq
    rw [update_inactive_levels hidx ha] at hq
    obtain ⟨q₀, hq₀, hsub⟩ := removeOrder_queue hq
    exact (h.nodup side k q₀ hq₀).sublist (hsub.map _)

theorem Paired.update (h : Paired b) (u : Update) : Paired (b.update u) := by
  cases hidx : b.ordersById[u.orderId]? with
  | none => rwa [update_absent hidx]
  | some o =>
      cases ha : (u.apply o).isActive with
      | true => exact h.update_active hidx ha
      | false => exact h.update_inactive hidx ha

/-- An order that an update makes inactive leaves the index and its level. -/
theorem gone_update (h : Paired b) (hidx : b.ordersById[u.orderId]? = some o)
    (ha : (u.apply o).isActive = false) :
    (b.update u).ordersById[u.orderId]? = none ∧ Gone u.orderId (b.update u) := by
  refine ⟨by rw [update_inactive_lookup hidx ha, if_pos rfl], ?_⟩
  intro side k e he
  rw [update_inactive_levels hidx ha] at he
  exact (h.holds_removeOrder he).2

theorem agreeBy_update_iff {α : Type*} (f : Order → α) (h : Paired b) (hb : AgreeBy f b)
    (u : Update) : AgreeBy f (b.update u) ↔ KeepsBy f b u := by
  cases hidx : b.ordersById[u.orderId]? with
  | none =>
      rw [update_absent hidx]
      exact iff_of_true hb fun o ho => by rw [hidx] at ho; cases ho
  | some o =>
      cases ha : (u.apply o).isActive with
      | false =>
          refine iff_of_true ?_ fun o' ho' _ => ?_
          · intro side k e he
            rw [update_inactive_levels hidx ha] at he
            obtain ⟨hold, hne⟩ := h.holds_removeOrder he
            rw [update_inactive_lookup hidx ha, if_neg (Ne.symm hne)]
            exact hb side k e hold
          · obtain rfl : o = o' := Option.some.inj (hidx.symm.trans ho')
            exact Or.inl ha
      | true =>
          constructor
          · intro hnext o' ho' hp
            obtain rfl : o = o' := Option.some.inj (hidx.symm.trans ho')
            obtain ⟨e, he, hid⟩ := h.listed _ o hidx hp
            obtain ⟨o₁, ho₁, hf₁⟩ := hb _ _ e he
            rw [hid, hidx, Option.some.injEq] at ho₁
            rw [← update_active_levels hidx ha] at he
            obtain ⟨o₂, ho₂, hf₂⟩ := hnext _ _ e he
            rw [hid, update_active_lookup hidx ha, if_pos rfl, Option.some.injEq] at ho₂
            exact Or.inr (by rw [ho₂, hf₂, ho₁, hf₁])
          · intro hkeeps side k e he
            rw [update_active_levels hidx ha] at he
            obtain ⟨o₁, ho₁, hf₁⟩ := hb side k e he
            rw [update_active_lookup hidx ha]
            split_ifs with hsame
            · rw [← hsame, hidx, Option.some.injEq] at ho₁
              obtain ⟨o₂, ho₂, hterms, -, hp, -⟩ := h.placed side k e he
              rw [← hsame, hidx, Option.some.injEq] at ho₂
              have hpriced : o.hasPrice = true := by rwa [ho₂, Order.hasPrice_of_terms hterms]
              have hsame := (hkeeps o hidx hpriced).resolve_left (by simp [ha])
              exact ⟨_, rfl, hsame.trans (ho₁ ▸ hf₁)⟩
            · exact ⟨o₁, ho₁, hf₁⟩

end Updates

section Volumes

variable {b : OrderBook}

/-- The orders of a side that have no level, because they have no positive price. -/
def unlistedOrders (b : OrderBook) (side : OrderSide) : List Order :=
  (b.activeOrders side).filter fun o => !o.hasPrice

/-- What the readers of the levels see of an order is what the readers of the index see: order by
order, and in total. -/
structure ReadersAgree (b : OrderBook) : Prop where
  remaining : AgreeBy Order.remainingQuantity b
  volume : ∀ side, b.getSummary.volume side =
    b.depthTotal side + ((b.unlistedOrders side).map Order.remainingQuantity).sum

theorem nodup_activeOrders (h : Paired b) (side : OrderSide) :
    ((b.activeOrders side).map Order.orderId).Nodup := by
  have hids : (b.ordersById.toList.map Prod.snd).map Order.orderId =
      b.ordersById.toList.map Prod.fst := by
    rw [List.map_map]
    refine List.map_congr_left fun entry hentry => ?_
    exact h.index_id entry.1 entry.2
      (Std.ExtTreeMap.mem_toList_iff_getElem?_eq_some.mp hentry)
  have hkeys : (b.ordersById.toList.map Prod.fst).Nodup := by
    refine List.pairwise_map.mpr ?_
    exact Std.ExtTreeMap.distinct_keys_toList.imp fun hne heq => hne (by simp [heq])
  rw [← hids] at hkeys
  cases side with
  | buy => exact hkeys.sublist (List.filter_sublist.map _)
  | sell => exact hkeys.sublist (List.filter_sublist.map _)

theorem nodup_entries (h : Paired b) (side : OrderSide) :
    ((b.levels side).entries.map Order.orderId).Nodup := by
  refine QueueMap.nodup_labels Order.orderId (List.Sublist.refl _)
    (fun k q hq => h.nodup side k q hq) ?_
  intro k k' e e' he he' hid
  obtain ⟨o, ho, hterms, -, -, hkey⟩ := h.placed side k e he
  obtain ⟨o', ho', hterms', -, -, hkey'⟩ := h.placed side k' e' he'
  rw [hid, ho', Option.some.injEq] at ho
  rw [← hkey, ← hkey', ← Order.priceKey_of_terms hterms, ← ho, Order.priceKey_of_terms hterms']

/-- The level entries of a side and its priced orders in the index are the same ids. -/
theorem entries_perm (h : Paired b) (side : OrderSide) :
    ((b.levels side).entries.map Order.orderId).Perm
      (((b.activeOrders side).filter Order.hasPrice).map Order.orderId) := by
  have hsome := (nodup_activeOrders h side).sublist
    ((List.filter_sublist (p := Order.hasPrice)).map Order.orderId)
  refine (List.perm_ext_iff_of_nodup (nodup_entries h side) hsome).mpr fun id => ?_
  simp only [List.mem_map, List.mem_filter, mem_activeOrders, QueueMap.mem_entries]
  constructor
  · rintro ⟨e, ⟨k, he⟩, rfl⟩
    obtain ⟨o, ho, hterms, hside, hp, -⟩ := h.placed side k e he
    refine ⟨o, ⟨⟨⟨_, ho⟩, h.active _ o ho, ?_⟩, ?_⟩, h.index_id _ o ho⟩
    · rw [Order.side_of_terms hterms, hside]
    · rw [Order.hasPrice_of_terms hterms, hp]
  · rintro ⟨o, ⟨⟨⟨id', ho⟩, -, rfl⟩, hp⟩, rfl⟩
    obtain ⟨e, he, hid⟩ := h.listed id' o ho hp
    exact ⟨e, ⟨_, he⟩, hid.trans (h.index_id id' o ho).symm⟩

theorem readersAgree_iff (h : Paired b) :
    ReadersAgree b ↔ AgreeBy Order.remainingQuantity b := by
  refine ⟨ReadersAgree.remaining, fun hb => ⟨hb, fun side => ?_⟩⟩
  let read (id : String) : ℚ := (b.ordersById[id]?.map Order.remainingQuantity).getD 0
  have hlevels : (b.levels side).entries.map Order.remainingQuantity =
      ((b.levels side).entries.map Order.orderId).map read := by
    rw [List.map_map]
    refine List.map_congr_left fun e he => ?_
    obtain ⟨k, he⟩ := QueueMap.mem_entries.mp he
    obtain ⟨o, ho, hrem⟩ := hb side k e he
    simp [read, ho, hrem]
  have hindex : ((b.activeOrders side).filter Order.hasPrice).map Order.remainingQuantity =
      (((b.activeOrders side).filter Order.hasPrice).map Order.orderId).map read := by
    rw [List.map_map]
    refine List.map_congr_left fun o ho => ?_
    obtain ⟨⟨id, hidx⟩, -, -⟩ := mem_activeOrders.mp (List.mem_of_mem_filter ho)
    have hown : b.ordersById[o.orderId]? = some o := by rwa [h.index_id id o hidx]
    simp [read, hown]
  have hsplit := ((List.filter_append_perm Order.hasPrice (b.activeOrders side)).map
    Order.remainingQuantity).sum_eq
  rw [summary_volume, depthTotal_eq, hlevels, ((entries_perm h side).map read).sum_eq, ← hindex,
    ← hsplit, List.map_append, List.sum_append]
  rfl

end Volumes

/-- Both copies of every order are equal, and so are the quantities that are read of them. -/
structure InStep (b : OrderBook) : Prop where
  copies : AgreeBy id b
  readers : ReadersAgree b

/-- If the update makes the order inactive, the order leaves the index and its level. -/
def Retires (u : Update) (b : OrderBook) : Prop :=
  ∀ o, b.ordersById[u.orderId]? = some o → (u.apply o).isActive = false →
    (b.update u).ordersById[u.orderId]? = none ∧ Gone u.orderId (b.update u)

theorem Coherent.paired {b : OrderBook} (hb : b.Coherent)
    (hact : ∀ (id : String) (o : Order), b.ordersById[id]? = some o → o.isActive = true) :
    Paired b where
  index_id _ _ ho := hb.index_id ho
  active := hact
  listed _ o ho hp := ⟨o, hb.listed ho hp, hb.index_id ho⟩
  placed side k e he := by
    obtain ⟨hidx, hside, hp, hkey⟩ := hb.indexed he
    exact ⟨e, hidx, rfl, hside, hp, hkey⟩
  nodup _ _ _ hq := hb.nodup hq

theorem paired_run {b : OrderBook} (h : Paired b) (us : List Update) :
    Paired (Runs.run update b us) :=
  Runs.invariant_run_of_mem (fun _ u _ hb => hb.update u) h

theorem agreeBy_run_iff {α : Type*} (f : Order → α) {b : OrderBook} (h : Paired b)
    (hb : AgreeBy f b) (us : List Update) :
    (∀ before after, us = before ++ after → AgreeBy f (Runs.run update b before)) ↔
      Runs.Admissible update (KeepsBy f) b us := by
  have hstep : ∀ b u, Paired b ∧ AgreeBy f b →
      (KeepsBy f b u ↔ Paired (b.update u) ∧ AgreeBy f (b.update u)) := by
    intro b u hI
    rw [← agreeBy_update_iff f hI.1 hI.2 u, and_iff_right (hI.1.update u)]
  rw [Runs.admissible_iff_forall_run (I := fun b => Paired b ∧ AgreeBy f b) hstep ⟨h, hb⟩]
  constructor
  · intro hrun before after hsplit
    exact ⟨paired_run h before, hrun before after hsplit⟩
  · intro hrun before after hsplit
    exact (hrun before after hsplit).2

/-- Exactly the runs of updates that keep both copies equal, and exactly those that keep the
remaining quantities equal. -/
theorem update_order_iff {b : OrderBook} (hb : b.Coherent)
    (hact : ∀ (id : String) (o : Order), b.ordersById[id]? = some o → o.isActive = true)
    (us : List Update) :
    (((∀ before after, us = before ++ after → InStep (Runs.run update b before)) ∧
        ∀ before u after, us = before ++ u :: after → Retires u (Runs.run update b before)) ↔
      Runs.Admissible update (KeepsBy id) b us) ∧
    ((∀ before after, us = before ++ after → ReadersAgree (Runs.run update b before)) ↔
      Runs.Admissible update (KeepsBy Order.remainingQuantity) b us) := by
  have h := hb.paired hact
  have hequal : ∀ {α : Type} (f : Order → α), AgreeBy f b := by
    intro α f side k e he
    exact ⟨e, (hb.indexed he).1, rfl⟩
  have hretires : ∀ before u after, us = before ++ u :: after →
      Retires u (Runs.run update b before) := by
    intro before u _ _ o hidx ha
    exact gone_update (paired_run h before) hidx ha
  constructor
  · rw [and_iff_left hretires, ← agreeBy_run_iff id h (hequal id)]
    refine forall_congr' fun before => forall_congr' fun after => imp_congr_right fun _ => ?_
    constructor
    · exact InStep.copies
    · intro hcopies
      refine ⟨hcopies, (readersAgree_iff (paired_run h before)).mpr fun side k e he => ?_⟩
      obtain ⟨o, ho, hsame⟩ := hcopies side k e he
      exact ⟨o, ho, congrArg Order.remainingQuantity hsame⟩
  · rw [← agreeBy_run_iff Order.remainingQuantity h (hequal _)]
    refine forall_congr' fun before => forall_congr' fun after => imp_congr_right fun _ => ?_
    exact readersAgree_iff (paired_run h before)

/-- A buy order for 10 at 150. -/
def singleBid : OrderBook :=
  ((OrderBook.new "AAPL").addOrder
    (Order.fromRequest "" 0 ⟨some "buy1", "AAPL", .buy, some 150, 10, "acc", .limit⟩)).1

theorem coherent_singleBid : singleBid.Coherent :=
  (coherent_new "AAPL").addOrder (by decide +kernel)

theorem active_singleBid : ∀ (id : String) (o : Order), singleBid.ordersById[id]? = some o →
    o.isActive = true := by
  intro id o ho
  rw [singleBid, addOrder_lookup (by decide +kernel)] at ho
  split_ifs at ho
  · rw [← Option.some.inj ho]
    rfl
  · simp [OrderBook.new] at ho

/-- After a fill of 5 the summary counts 5 and the depth still counts 10. -/
theorem stale_level_entry : ¬ ∀ (b : OrderBook), b.Coherent →
    (∀ (id : String) (o : Order), b.ordersById[id]? = some o → o.isActive = true) →
    ∀ us : List Update,
      (∀ before after, us = before ++ after → InStep (Runs.run update b before)) ∧
        ∀ before u after, us = before ++ u :: after → Retires u (Runs.run update b before) := by
  intro hall
  let u : Update := ⟨"buy1", .partiallyFilled, some 5, 1⟩
  have h := ((hall singleBid coherent_singleBid active_singleBid [u]).1 [u] [] rfl).readers.volume
    .buy
  exact absurd h (by decide +kernel)

/-- An order that is accepted in place and then cancelled. -/
theorem update_order_singleBid :
    let us : List Update := [⟨"buy1", .new, none, 0⟩, ⟨"buy1", .cancelled, none, 1⟩]
    (Runs.run update singleBid us).buyDepth = [] ∧
      ∀ before after, us = before ++ after → InStep (Runs.run update singleBid before) := by
  intro us
  refine ⟨by decide +kernel, ?_⟩
  refine (((update_order_iff coherent_singleBid active_singleBid us).1).mpr ⟨?_, ?_, trivial⟩).1
  · intro o ho _
    have hsome : singleBid.ordersById["buy1"]? = some
        (Order.fromRequest "" 0 ⟨some "buy1", "AAPL", .buy, some 150, 10, "acc", .limit⟩) := by
      decide +kernel
    obtain rfl := Option.some.inj (hsome.symm.trans ho)
    exact Or.inr rfl
  · exact fun o _ _ => Or.inl rfl

end OrderBook

end ActixPura
