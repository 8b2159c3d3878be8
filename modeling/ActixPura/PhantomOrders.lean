import ActixPura.BookCoherence
import ActixPura.Runs

/-!
# Insertions under an id that is in use

`add_order` replaces the index entry of an id and pushes the new order to its level, but it does not
take the old order out of its own level. `remove_order` finds the level through the index, so the
old entry stays for good. A run of insertions and removals never shows such an entry exactly when
every accepted insertion under an id in use repeats the order that is there.
-/

namespace ActixPura

open OrderBook

inductive BookCall
  | addOrder (o : {o : Order // o.hasPrice = true})
  | removeOrder (id : String)

namespace OrderBook

/-- Every level entry is the order that the index has under its id. -/
def NoPhantom (b : OrderBook) : Prop :=
  ∀ (side : OrderSide) (k : ℤ) (e : Order), (b.levels side).Holds k e →
    b.ordersById[e.orderId]? = some e

def Gone (id : String) (b : OrderBook) : Prop :=
  ∀ (side : OrderSide) (k : ℤ) (e : Order), (b.levels side).Holds k e → e.orderId ≠ id

def call (b : OrderBook) : BookCall → OrderBook
  | .addOrder o => (b.addOrder o).1
  | .removeOrder id => (b.removeOrder id).1

/-- An accepted insertion has a new id or repeats the order in the book. -/
def KeepsId (b : OrderBook) : BookCall → Prop
  | .addOrder o => b.accepts o = true → ∀ e, b.ordersById[o.val.orderId]? = some e → e = o
  | .removeOrder _ => True

/-- What holds of the two copies whatever ids are used. -/
structure Filed (b : OrderBook) : Prop where
  index_id : ∀ (id : String) (o : Order), b.ordersById[id]? = some o → o.orderId = id
  listed : ∀ (id : String) (o : Order), b.ordersById[id]? = some o →
    (b.levels o.side).Holds o.priceKey o
  placed : ∀ (side : OrderSide) (k : ℤ) (e : Order), (b.levels side).Holds k e →
    e.side = side ∧ e.priceKey = k

theorem filed_new (symbol : String) : Filed (OrderBook.new symbol) where
  index_id id o ho := by simp [OrderBook.new] at ho
  listed id o ho := by simp [OrderBook.new] at ho
  placed side k e he := by simp at he

section Calls

variable {b : OrderBook} {id : String}

theorem holds_of_removeOrder {side : OrderSide} {k : ℤ} {e : Order}
    (he : ((b.removeOrder id).1.levels side).Holds k e) : (b.levels side).Holds k e := by
  obtain ⟨q, hq, hmem⟩ := he
  obtain ⟨q₀, hq₀, hsub⟩ := removeOrder_queue hq
  exact ⟨q₀, hq₀, hsub.subset hmem⟩

theorem holds_removeOrder_of_ne {side : OrderSide} {k : ℤ} {e : Order} (hne : e.orderId ≠ id)
    (he : (b.levels side).Holds k e) : ((b.removeOrder id).1.levels side).Holds k e := by
  cases hidx : b.ordersById[id]? with
  | none => simpa only [removeOrder, hidx] using he
  | some o =>
      rw [removeOrder_levels b id hidx]
      split_ifs
      · exact (QueueMap.holds_retain _ _ _ _ _).mpr ⟨he, fun _ => by simpa using hne⟩
      · exact he

theorem Filed.addOrder (h : Filed b) {o : Order} (hprice : o.hasPrice = true) :
    Filed (b.addOrder o).1 := by
  cases ha : b.accepts o with
  | false => rwa [addOrder_rejected ha]
  | true =>
      refine ⟨?_, ?_, ?_⟩
      · intro id e he
        rw [addOrder_lookup ha] at he
        split_ifs at he with hid
        · rw [Option.some.injEq] at he
          exact he ▸ hid
        · exact h.index_id id e he
      · intro id e he
        rw [addOrder_lookup ha] at he
        rw [holds_addOrder ha]
        split_ifs at he with hid
        · rw [Option.some.injEq] at he
          subst e
          exact Or.inr ⟨hprice, rfl, rfl, rfl⟩
        · exact Or.inl (h.listed id e he)
      · intro side k e he
        rcases (holds_addOrder ha side k e).mp he with he | ⟨-, hside, hkey, rfl⟩
        · exact h.placed side k e he
        · exact ⟨hside.symm, hkey.symm⟩

theorem Filed.removeOrder (h : Filed b) (id : String) : Filed (b.removeOrder id).1 := by
  refine ⟨?_, ?_, ?_⟩
  · intro id' e he
    rw [removeOrder_lookup] at he
    split_ifs at he
    exact h.index_id id' e he
  · intro id' e he
    rw [removeOrder_lookup] at he
    split_ifs at he with hne
    refine holds_removeOrder_of_ne ?_ (h.listed id' e he)
    rw [h.index_id id' e he]
    exact Ne.symm hne
  · intro side k e he
    exact h.placed side k e (holds_of_removeOrder he)

theorem Filed.call (h : Filed b) (c : BookCall) : Filed (b.call c) := by
  cases c with
  | addOrder o => exact h.addOrder o.property
  | removeOrder id => exact h.removeOrder id

/-- A removal takes out the entry that the index names, and so every entry of its id. -/
theorem gone_removeOrder (h : Filed b) (hb : NoPhantom b) (id : String) :
    Gone id (b.removeOrder id).1 := by
  rintro side k e he rfl
  have hidx := hb side k e (holds_of_removeOrder he)
  obtain ⟨hside, hkey⟩ := h.placed side k e (holds_of_removeOrder he)
  rw [removeOrder_levels b _ hidx, if_pos hside.symm] at he
  simpa using ((QueueMap.holds_retain _ _ _ _ _).mp he).2 hkey.symm

theorem noPhantom_removeOrder (h : Filed b) (hb : NoPhantom b) (id : String) :
    NoPhantom (b.removeOrder id).1 := by
  intro side k e he
  have hne := gone_removeOrder h hb id side k e he
  rw [removeOrder_lookup, if_neg (Ne.symm hne)]
  exact hb side k e (holds_of_removeOrder he)

theorem noPhantom_addOrder_iff (h : Filed b) (hb : NoPhantom b)
    (o : {o : Order // o.hasPrice = true}) :
    NoPhantom (b.addOrder o).1 ↔ b.KeepsId (.addOrder o) := by
  constructor
  · intro hnext ha e he
    have hid := h.index_id _ e he
    have hold := (holds_addOrder ha _ _ _).mpr (Or.inl (h.listed _ e he))
    have hidx := hnext _ _ e hold
    rw [addOrder_lookup ha, if_pos hid.symm, Option.some.injEq] at hidx
    exact hidx.symm
  · intro hkeeps
    cases ha : b.accepts o with
    | false => rwa [addOrder_rejected ha]
    | true =>
        intro side k e he
        rw [addOrder_lookup ha]
        rcases (holds_addOrder ha side k e).mp he with he | ⟨-, -, -, rfl⟩
        · have hidx := hb side k e he
          split_ifs with hid
          · rw [hkeeps ha e (hid ▸ hidx)]
          · exact hidx
        · rw [if_pos rfl]

theorem noPhantom_call_iff (h : Filed b) (hb : NoPhantom b) (c : BookCall) :
    NoPhantom (b.call c) ↔ b.KeepsId c := by
  cases c with
  | addOrder o => exact noPhantom_addOrder_iff h hb o
  | removeOrder id => exact iff_of_true (noPhantom_removeOrder h hb id) trivial

end Calls

theorem filed_run {b : OrderBook} (h : Filed b) (cs : List BookCall) :
    Filed (Runs.run call b cs) :=
  Runs.invariant_run_of_mem (fun _ c _ hb => hb.call c) h

/-- Exactly the runs without a phantom order: every level entry is the indexed order of its id after
every call, and a removal leaves no entry of its id. -/
theorem no_phantom_iff (symbol : String) (cs : List BookCall) :
    ((∀ before after, cs = before ++ after →
        NoPhantom (Runs.run call (OrderBook.new symbol) before)) ∧
      ∀ before id after, cs = before ++ .removeOrder id :: after →
        Gone id (Runs.run call (OrderBook.new symbol) (before ++ [.removeOrder id]))) ↔
      Runs.Admissible call KeepsId (OrderBook.new symbol) cs := by
  have hstart : Filed (OrderBook.new symbol) ∧ NoPhantom (OrderBook.new symbol) :=
    ⟨filed_new symbol, fun side k e he => by simp at he⟩
  have hstep : ∀ b c, Filed b ∧ NoPhantom b →
      (KeepsId b c ↔ Filed (b.call c) ∧ NoPhantom (b.call c)) := by
    intro b c hI
    rw [← noPhantom_call_iff hI.1 hI.2 c, and_iff_right (hI.1.call c)]
  rw [Runs.admissible_iff_forall_run (I := fun b => Filed b ∧ NoPhantom b) hstep hstart]
  constructor
  · rintro ⟨hrun, -⟩ before after hsplit
    exact ⟨filed_run hstart.1 before, hrun before after hsplit⟩
  · intro hrun
    refine ⟨fun before after hsplit => (hrun before after hsplit).2, ?_⟩
    intro before id after hsplit
    obtain ⟨hfiled, hclean⟩ := hrun before (.removeOrder id :: after) hsplit
    rw [Runs.run_append]
    exact gone_removeOrder hfiled hclean id

/-- An order that is added again at another price and then removed. -/
def repricedRun : List BookCall :=
  let bid (price : ℕ) (h : 0 < price) : {o : Order // o.hasPrice = true} :=
    ⟨Order.fromRequest "" 0 ⟨some "b1", "AAPL", .buy, some price, 10, "acc", .limit⟩,
      by simpa [Order.hasPrice, Order.fromRequest] using h⟩
  [.addOrder (bid 100 (by decide)), .addOrder (bid 101 (by decide)), .removeOrder "b1"]

/-- Its first entry stays in the level of 100, without an index entry. -/
theorem phantom_repricedRun : ¬ ∀ (symbol : String) (cs : List BookCall),
    (∀ before after, cs = before ++ after →
        NoPhantom (Runs.run call (OrderBook.new symbol) before)) ∧
      ∀ before id after, cs = before ++ .removeOrder id :: after →
        Gone id (Runs.run call (OrderBook.new symbol) (before ++ [.removeOrder id])) := by
  intro hall
  let o : Order := Order.fromRequest "" 0 ⟨some "b1", "AAPL", .buy, some 100, 10, "acc", .limit⟩
  have hgone := (hall "AAPL" repricedRun).2 (repricedRun.take 2) "b1" [] rfl
  have hqueue : ((Runs.run call (OrderBook.new "AAPL") repricedRun).levels .buy)[(10000 : ℤ)]? =
      some [o] := by decide +kernel
  exact hgone .buy 10000 o ⟨_, hqueue, List.mem_singleton_self o⟩ rfl

end OrderBook

end ActixPura
