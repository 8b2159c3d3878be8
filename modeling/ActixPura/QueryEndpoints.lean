import ActixPura.OrderGateway

/-!
# The query endpoints

The adapter answers `Order` when the order actor found exactly one order and `Orders` otherwise. The
endpoint for an order takes `Order` only, and the endpoint for an account takes `Orders` only. The
first therefore misses the answer that nothing was found, and the second the answer that one order
was found: either way the client reads of an internal error.
-/

namespace ActixPura

open Std (ExtTreeMap)

theorem values_eq_map_toList {α β : Type} [Ord α] [Std.TransOrd α] (m : ExtTreeMap α β compare) :
    m.values = m.toList.map Prod.snd := by
  obtain ⟨⟨q⟩⟩ := m
  induction q using Quotient.ind with
  | _ t =>
      change t.inner.values = (Std.DTreeMap.Internal.Impl.Const.toList t.inner).map Prod.snd
      rw [Std.DTreeMap.Internal.Impl.values_eq_map_snd,
        Std.DTreeMap.Internal.Impl.Const.toList_eq_toListModel_map, List.map_map]
      rfl

theorem length_eq_one_iff_existsUnique {α : Type} {l : List α} (h : l.Nodup) :
    l.length = 1 ↔ ∃! x, x ∈ l := by
  constructor
  · intro hlength
    obtain ⟨x, rfl⟩ := List.length_eq_one_iff.mp hlength
    exact ⟨x, List.mem_singleton_self x, fun y hy => List.mem_singleton.mp hy⟩
  · rintro ⟨x, hx, hunique⟩
    have hreplicate : l = List.replicate l.length x := List.eq_replicate_of_mem hunique
    have hle : l.length ≤ 1 := by
      rw [hreplicate] at h
      exact List.nodup_replicate.mp h
    have hpos : 0 < l.length := List.length_pos_of_mem hx
    omega

namespace OrderActor

/-- An order of the account is stored under `id`. -/
def Owns (a : OrderActor) (accountId id : String) : Prop :=
  ∃ o, a.orders[id]? = some o ∧ o.accountId = accountId

/-- `orders` holds the stored orders of the account, one for each id. -/
def ListsAccount (a : OrderActor) (accountId : String) (orders : List Order) : Prop :=
  ∃ ids : List String, ids.Nodup ∧ (∀ id, id ∈ ids ↔ a.Owns accountId id) ∧
    (orders.map some).Perm (ids.map fun (id : String) => a.orders[id]?)

/-- `query_orders` answers. The values of a hash map come in any order. -/
def Reached (a : OrderActor) (ask : OrderQuery → Option (List Order)) : Prop :=
  ∀ query, ∃ orders, ask query = some orders ∧ orders.Perm (a.queryOrders query)

variable {a : OrderActor} {accountId : String} {orders : List Order}

theorem reached_queryOrders (a : OrderActor) : a.Reached fun query => some (a.queryOrders query) :=
  fun _ => ⟨_, rfl, List.Perm.refl _⟩

theorem listsAccount_of_perm (h : orders.Perm (a.queryOrders (.byAccount accountId))) :
    a.ListsAccount accountId orders := by
  let entries := a.orders.toList.filter fun e => e.2.accountId == accountId
  have horders : a.queryOrders (.byAccount accountId) = entries.map Prod.snd := by
    rw [queryOrders, values_eq_map_toList, List.filter_map]
    rfl
  have hmem : ∀ {id : String} {o : Order},
      (id, o) ∈ entries ↔ a.orders[id]? = some o ∧ o.accountId = accountId := by
    intro id o
    rw [List.mem_filter, ExtTreeMap.mem_toList_iff_getElem?_eq_some, beq_iff_eq]
  refine ⟨entries.map Prod.fst, ?_, fun id => ?_, ?_⟩
  · have hkeys : (a.orders.toList.map Prod.fst).Nodup := by
      rw [ExtTreeMap.map_fst_toList_eq_keys]
      exact ExtTreeMap.nodup_keys
    exact hkeys.sublist (List.filter_sublist.map Prod.fst)
  · constructor
    · intro hid
      obtain ⟨⟨_, o⟩, he, rfl⟩ := List.mem_map.mp hid
      exact ⟨o, hmem.mp he⟩
    · rintro ⟨o, ho⟩
      exact List.mem_map_of_mem (hmem.mpr ho)
  · rw [horders] at h
    refine (h.map some).trans (List.Perm.of_eq ?_)
    rw [List.map_map, List.map_map]
    refine List.map_congr_left fun e he => ?_
    exact (hmem.mp he).1.symm

theorem length_eq_one_iff_owns (h : a.ListsAccount accountId orders) :
    orders.length = 1 ↔ ∃! id, a.Owns accountId id := by
  obtain ⟨ids, hnodup, hmem, hperm⟩ := h
  have hlength : orders.length = ids.length := by simpa using hperm.length_eq
  rw [hlength, length_eq_one_iff_existsUnique hnodup]
  exact existsUnique_congr hmem

end OrderActor

namespace QueryEndpoints

open ApiGatewayActor

/-- The adapter answers the gateway. -/
def send (ask : OrderQuery → Option (List Order)) (msg : OrderQueryMessage) :
    Except MailboxError OrderQueryResult :=
  .ok (ActixOrderActor.handleOrderQuery ask msg)

/-- The endpoint for an account answers with the stored orders of the account. -/
def AccountAnswered (a : OrderActor) (accountId : String) : Prop :=
  ∀ ask, a.Reached ask → ∃ orders, a.ListsAccount accountId orders ∧
    handleAccountOrdersQuery (send ask) accountId = .ok none (some orders)

/-- The endpoint for an order answers with the stored order, or that there is none. -/
def OrderAnswered (a : OrderActor) (orderId : String) : Prop :=
  ∀ ask, a.Reached ask →
    match a.orders[orderId]? with
    | some o => handleOrderQuery (send ask) orderId = .ok none (some o)
    | none => (handleOrderQuery (send ask) orderId).status = .notFound

variable {ask : OrderQuery → Option (List Order)} {accountId orderId : String}
  {orders : List Order}

theorem accountOrders_eq (h : ask (.byAccount accountId) = some orders) :
    handleAccountOrdersQuery (send ask) accountId =
      if orders.length = 1 then .failure .internalServerError "Unexpected response type"
      else .ok none (some orders) := by
  rw [handleAccountOrdersQuery, send, ActixOrderActor.handleOrderQuery, ActixOrderActor.query, h]
  match orders with
  | [] => rfl
  | [_] => rfl
  | _ :: _ :: _ => simp

theorem order_eq_of_found {o : Order} (h : ask (.byId orderId) = some [o]) :
    handleOrderQuery (send ask) orderId = .ok none (some o) := by
  rw [handleOrderQuery, send, ActixOrderActor.handleOrderQuery, ActixOrderActor.query, h]

theorem order_eq_of_missing (h : ask (.byId orderId) = some []) :
    handleOrderQuery (send ask) orderId =
      .failure .internalServerError "Unexpected response type" := by
  rw [handleOrderQuery, send, ActixOrderActor.handleOrderQuery, ActixOrderActor.query, h]

theorem accountAnswered_iff (a : OrderActor) (accountId : String) :
    AccountAnswered a accountId ↔ ¬ ∃! id, a.Owns accountId id := by
  constructor
  · intro h hone
    obtain ⟨orders, -, hresponse⟩ := h _ (OrderActor.reached_queryOrders a)
    have hlists := OrderActor.listsAccount_of_perm
      (List.Perm.refl (a.queryOrders (.byAccount accountId)))
    rw [accountOrders_eq rfl, if_pos ((OrderActor.length_eq_one_iff_owns hlists).mpr hone)]
      at hresponse
    exact nomatch congrArg HttpResponse.status hresponse
  · intro h ask hask
    obtain ⟨orders, hasked, hperm⟩ := hask (.byAccount accountId)
    have hlists := OrderActor.listsAccount_of_perm hperm
    refine ⟨orders, hlists, ?_⟩
    rw [accountOrders_eq hasked, if_neg fun hone => h ?_]
    exact (OrderActor.length_eq_one_iff_owns hlists).mp hone

theorem orderAnswered_iff (a : OrderActor) (orderId : String) :
    OrderAnswered a orderId ↔ a.orders[orderId]?.isSome = true := by
  unfold OrderAnswered
  cases hid : a.orders[orderId]? with
  | none =>
      have hnone : a.queryOrders (.byId orderId) = [] := by
        rw [OrderActor.queryOrders, hid]
      refine ⟨fun h => ?_, fun h => nomatch h⟩
      have hstatus := h _ (OrderActor.reached_queryOrders a)
      rw [order_eq_of_missing (congrArg some hnone)] at hstatus
      exact nomatch hstatus
  | some o =>
      have hone : a.queryOrders (.byId orderId) = [o] := by
        rw [OrderActor.queryOrders, hid]
      refine ⟨fun _ => rfl, fun _ ask hask => ?_⟩
      obtain ⟨orders, hasked, hperm⟩ := hask (.byId orderId)
      rw [hone, List.perm_singleton] at hperm
      rw [hperm] at hasked
      exact order_eq_of_found hasked

/-- The account endpoint answers for every account but one with a single order, and the order
endpoint for every order that is stored. -/
theorem query_endpoints_iff (a : OrderActor) (accountId orderId : String) :
    (AccountAnswered a accountId ↔ ¬ ∃! id, a.Owns accountId id) ∧
      (OrderAnswered a orderId ↔ a.orders[orderId]?.isSome = true) :=
  ⟨accountAnswered_iff a accountId, orderAnswered_iff a orderId⟩

/-- An account with a single order, and an empty store. -/
theorem query_endpoints_fail :
    (¬ ∀ (a : OrderActor) (accountId : String), AccountAnswered a accountId) ∧
      ¬ ∀ (a : OrderActor) (orderId : String), OrderAnswered a orderId := by
  let a := (OrderActor.new "n").storeOrder
    (.fromRequest "v" 0 ⟨some "o", "BTC", .buy, none, 1, "c", .market⟩)
  constructor
  · intro h
    obtain ⟨orders, -, hresponse⟩ := h a "c" _ (OrderActor.reached_queryOrders a)
    have hstatus : (handleAccountOrdersQuery (send fun query => some (a.queryOrders query))
        "c").status = .internalServerError := by decide +kernel
    rw [hresponse] at hstatus
    exact nomatch hstatus
  · intro h
    have hstatus : (handleOrderQuery (send fun query =>
        some ((OrderActor.new "n").queryOrders query)) "o").status = .notFound :=
      h (.new "n") "o" _ (OrderActor.reached_queryOrders _)
    exact absurd hstatus (by decide +kernel)

end QueryEndpoints

end ActixPura
