import ActixPura.OrderBook

/-!
# Coherence of the two copies of an order

`Coherent b` relates the index of a book to its price levels: the index files every order under
its own id, a level holds exactly the indexed orders of its side and key that carry a positive
price, no id waits twice in a level, and no level is empty. Both mutations of
the book keep it, the insertion as long as the id is not indexed yet.
-/

namespace ActixPura

open Std (ExtTreeMap)

namespace OrderBook

structure Coherent (b : OrderBook) : Prop where
  index_id : ∀ {id : String} {o : Order}, b.ordersById[id]? = some o → o.orderId = id
  indexed : ∀ {side : OrderSide} {k : ℤ} {o : Order}, (b.levels side).Holds k o →
    b.ordersById[o.orderId]? = some o ∧ o.side = side ∧ o.hasPrice = true ∧ o.priceKey = k
  listed : ∀ {id : String} {o : Order}, b.ordersById[id]? = some o → o.hasPrice = true →
    (b.levels o.side).Holds o.priceKey o
  nodup : ∀ {side : OrderSide} {k : ℤ} {q : List Order}, (b.levels side)[k]? = some q →
    (q.map Order.orderId).Nodup
  noEmpty : ∀ side : OrderSide, (b.levels side).NoEmpty

theorem coherent_new (symbol : String) : Coherent (OrderBook.new symbol) where
  index_id h := by simp [OrderBook.new] at h
  indexed h := by simp at h
  listed h := by simp [OrderBook.new] at h
  nodup h := by simp at h
  noEmpty side := by simpa using QueueMap.noEmpty_empty

namespace Coherent

variable {b : OrderBook} {o : Order} {id : String} {side : OrderSide} {k : ℤ}

/-- The levels of a coherent book are determined by its index. -/
theorem holds_iff (h : Coherent b) : (b.levels side).Holds k o ↔
    b.ordersById[o.orderId]? = some o ∧ o.side = side ∧ o.hasPrice = true ∧ o.priceKey = k := by
  constructor
  · exact h.indexed
  · rintro ⟨hid, rfl, hp, rfl⟩
    exact h.listed hid hp

theorem key_eq_of_id (h : Coherent b) {k' : ℤ} {e : Order} (ho : (b.levels side).Holds k o)
    (he : (b.levels side).Holds k' e) (hid : o.orderId = e.orderId) : k = k' := by
  obtain ⟨hoi, _, _, hok⟩ := h.indexed ho
  obtain ⟨hei, _, _, hek⟩ := h.indexed he
  rw [hid, hei, Option.some.injEq] at hoi
  rw [← hok, ← hek, hoi]

/-- A traversal of some levels of one side meets every id at most once. -/
theorem nodup_traversal (h : Coherent b) {l : List (ℤ × List Order)}
    (hl : l.Sublist (b.levels side).toList) :
    ((l.flatMap Prod.snd).map Order.orderId).Nodup :=
  QueueMap.nodup_labels Order.orderId hl (fun _ _ => h.nodup) h.key_eq_of_id

theorem pairwise_priceKey (h : Coherent b) {l : List (ℤ × List Order)}
    (hl : l.Sublist (b.levels side).toList) :
    (l.flatMap Prod.snd).Pairwise (fun x y => x.priceKey ≤ y.priceKey) :=
  QueueMap.pairwise_keys Order.priceKey hl (fun hx => (h.indexed hx).2.2.2)

theorem addOrder (h : Coherent b) (hfresh : b.ordersById[o.orderId]? = none) :
    Coherent (b.addOrder o).1 := by
  cases ha : b.accepts o with
  | false => rwa [addOrder_rejected ha]
  | true =>
      have hne : ∀ {e : Order}, b.ordersById[e.orderId]? = some e → o.orderId ≠ e.orderId := by
        intro e he heq
        rw [← heq, hfresh] at he
        cases he
      refine ⟨?_, ?_, ?_, ?_, ?_⟩
      · intro id e he
        rw [addOrder_lookup ha] at he
        by_cases hid : o.orderId = id
        · rw [if_pos hid, Option.some.injEq] at he
          exact he ▸ hid
        · rw [if_neg hid] at he
          exact h.index_id he
      · intro side k e he
        rw [addOrder_lookup ha]
        rcases (holds_addOrder ha side k e).mp he with he | ⟨hp, hs, hk, rfl⟩
        · obtain ⟨hi, hrest⟩ := h.indexed he
          rw [if_neg (hne hi)]
          exact ⟨hi, hrest⟩
        · rw [if_pos rfl]
          exact ⟨rfl, hs.symm, hp, hk.symm⟩
      · intro id e he hp
        rw [addOrder_lookup ha] at he
        apply (holds_addOrder ha e.side e.priceKey e).mpr
        by_cases hid : o.orderId = id
        · rw [if_pos hid, Option.some.injEq] at he
          subst e
          exact Or.inr ⟨hp, rfl, rfl, rfl⟩
        · rw [if_neg hid] at he
          exact Or.inl (h.listed he hp)
      · intro side k q hq
        rcases addOrder_queue ha hq with hq | ⟨_, _, _, rfl⟩
        · exact h.nodup hq
        · cases hq₀ : (b.levels side)[k]? with
          | none => simp
          | some q₀ =>
              have hnot : o.orderId ∉ q₀.map Order.orderId := by
                intro hmem
                obtain ⟨e, he, hee⟩ := List.mem_map.mp hmem
                exact hne (h.indexed ⟨q₀, hq₀, he⟩).1 hee.symm
              simpa [List.nodup_append] using ⟨h.nodup hq₀, by simpa using hnot⟩
      · intro side
        rw [addOrder_levels ha]
        split_ifs
        · exact QueueMap.noEmpty_pushBack (h.noEmpty side) _ _
        · exact h.noEmpty side

theorem holds_removeOrder (h : Coherent b) (id : String) (e : Order) :
    (((b.removeOrder id).1.levels side).Holds k e) ↔
      (b.levels side).Holds k e ∧ e.orderId ≠ id := by
  cases hid : b.ordersById[id]? with
  | none =>
      have hb : (b.removeOrder id).1 = b := by simp [removeOrder, hid]
      rw [hb]
      constructor
      · intro he
        refine ⟨he, ?_⟩
        rintro rfl
        rw [(h.indexed he).1] at hid
        cases hid
      · exact And.left
  | some o =>
      have hsame : (b.levels side).Holds k e → e.orderId = id →
          side = o.side ∧ k = o.priceKey := by
        rintro he rfl
        obtain ⟨hi, hs, _, hk⟩ := h.indexed he
        rw [hi, Option.some.injEq] at hid
        exact hid ▸ ⟨hs.symm, hk.symm⟩
      rw [removeOrder_levels b id hid]
      by_cases hs : side = o.side
      · rw [if_pos hs, QueueMap.holds_retain]
        constructor
        · rintro ⟨he, hk⟩
          refine ⟨he, fun heq => ?_⟩
          simpa [heq] using hk (hsame he heq).2
        · rintro ⟨he, hne⟩
          exact ⟨he, fun _ => by simpa using hne⟩
      · rw [if_neg hs]
        constructor
        · intro he
          exact ⟨he, fun heq => hs (hsame he heq).1⟩
        · exact And.left

theorem removeOrder (h : Coherent b) (id : String) : Coherent (b.removeOrder id).1 := by
  refine ⟨?_, ?_, ?_, ?_, ?_⟩
  · intro id' e he
    rw [removeOrder_lookup] at he
    split_ifs at he
    exact h.index_id he
  · intro side k e he
    obtain ⟨he, hne⟩ := (h.holds_removeOrder id e).mp he
    rw [removeOrder_lookup, if_neg (Ne.symm hne)]
    exact h.indexed he
  · intro id' e he hp
    rw [removeOrder_lookup] at he
    split_ifs at he with hne
    apply (h.holds_removeOrder id e).mpr
    refine ⟨h.listed he hp, ?_⟩
    rw [h.index_id he]
    exact Ne.symm hne
  · intro side k q hq
    obtain ⟨q₀, hq₀, hsub⟩ := removeOrder_queue hq
    exact (h.nodup hq₀).sublist (hsub.map _)
  · intro side
    cases hid : b.ordersById[id]? with
    | none => simpa only [OrderBook.removeOrder, hid] using h.noEmpty side
    | some o =>
        rw [removeOrder_levels b id hid]
        split_ifs
        · exact QueueMap.noEmpty_retain (h.noEmpty side) _ _
        · exact h.noEmpty side

end Coherent

end OrderBook

end ActixPura
