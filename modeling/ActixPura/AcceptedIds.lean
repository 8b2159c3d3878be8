import ActixPura.OrderIsolation

/-!
# Accepted ids

A client that is told `Accepted(id)` will query and cancel under `id`. `Usable` says that both
work, and a message that takes no notice of the id leaves it usable, so it stays usable along
every run of such messages.

`create_and_execute_order` reads the id of its answer from the request, or draws one, and
`Order::from_request` does the same again for the id under which the order is stored. A request
with an id gets the same id twice. A request without one gets two.
-/

namespace ActixPura

namespace OrderActor

/-- Under `id` the actor answers with `o` alone, and accepts a cancellation by the client. -/
structure Usable (a : OrderActor) (id clientId : String) (o : Order) : Prop where
  found : a.queryOrders (.byId id) = [o]
  named : o.orderId = id
  cancels : ∀ now, (a.cancelOrder id clientId now).2 = .accepted id

/-- The message neither stores nor cancels an order under `id`. -/
def Spares (id : String) : OrderMessage → Prop
  | .create request _ orderUuid _ => request.orderId.getD orderUuid ≠ id
  | .cancel request _ => request.orderId ≠ id
  | .query _ => True

variable {a : OrderActor} {id clientId : String} {o : Order}

theorem queryOrders_byId_eq_singleton : a.queryOrders (.byId id) = [o] ↔
    a.orders[id]? = some o := by
  cases hid : a.orders[id]? <;> simp [queryOrders, hid]

theorem cancelOrder_of_lookup (h : a.orders[id]? = some o) (now : DateTime) :
    (a.cancelOrder id clientId now).2 = .accepted id ↔
      o.accountId = clientId ∧ o.canCancel = true := by
  constructor
  · intro hcancel
    obtain ⟨-, o', ho', howner, hcan⟩ := cancelOrder_accepted hcancel
    rw [h, Option.some.injEq] at ho'
    subst o'
    exact ⟨howner, hcan⟩
  · rintro ⟨howner, hcan⟩
    simp [cancelOrder, h, howner, hcan]

/-- An id is usable when an order of that id and client that may be cancelled is filed there. -/
theorem usable_iff : a.Usable id clientId o ↔
    a.orders[id]? = some o ∧ o.orderId = id ∧ o.accountId = clientId ∧ o.canCancel = true := by
  constructor
  · intro h
    have hlookup := queryOrders_byId_eq_singleton.mp h.found
    exact ⟨hlookup, h.named, (cancelOrder_of_lookup hlookup 0).mp (h.cancels 0)⟩
  · rintro ⟨hlookup, hnamed, hcancels⟩
    exact ⟨queryOrders_byId_eq_singleton.mpr hlookup, hnamed,
      fun now => (cancelOrder_of_lookup hlookup now).mpr hcancels⟩

theorem lookup_handle_of_spares {message : OrderMessage} (h : Spares id message) :
    (a.handle message).orders[id]? = a.orders[id]? := by
  cases message with
  | create request answerUuid orderUuid now =>
      rw [handle_create_lookup, if_neg h]
  | cancel request now =>
      simp only [handle, handleCancelOrder, cancelOrder]
      cases a.orders[request.orderId]? with
      | none => rfl
      | some e =>
          dsimp only
          split_ifs
          · rfl
          · rfl
          · rw [Std.ExtTreeMap.getElem?_insert, if_neg]
            simpa [Spares] using h
  | query query => rfl

theorem usable_handle {message : OrderMessage} (hspares : Spares id message)
    (h : a.Usable id clientId o) : (a.handle message).Usable id clientId o := by
  rw [usable_iff, lookup_handle_of_spares hspares]
  exact usable_iff.mp h

/-- A usable id stays usable until a message stores or cancels an order under it. -/
theorem usable_run {messages : List OrderMessage}
    (hspares : ∀ message ∈ messages, Spares id message) (h : a.Usable id clientId o) :
    (Runs.run handle a messages).Usable id clientId o :=
  Runs.invariant_run_of_mem (I := fun a : OrderActor => a.Usable id clientId o)
    (fun _ message hmessage ha => usable_handle (hspares message hmessage) ha) h

section Creation

variable (a) (request : OrderRequest) (answerUuid orderUuid : String) (now : DateTime)

/-- Whatever id the answer accepts, the order built from the request is usable under it, until
the next request that is not a query. -/
def AcceptedUsable : Prop :=
  ∀ (id : String) (queries : List OrderQuery),
    (a.createAndExecuteOrder request answerUuid orderUuid now).2.1 = .accepted id →
      (Runs.run handle (a.createAndExecuteOrder request answerUuid orderUuid now).1
        (queries.map OrderMessage.query)).Usable id request.clientId
          (Order.fromRequest orderUuid now request)

/-- The order is usable under the id it is stored under, which is its own. -/
theorem usable_stored : (a.createAndExecuteOrder request answerUuid orderUuid now).1.Usable
    (Order.fromRequest orderUuid now request).orderId request.clientId
    (Order.fromRequest orderUuid now request) := by
  rw [usable_iff]
  refine ⟨?_, rfl, rfl, rfl⟩
  exact (storeOrder_lookup a _ _).trans (if_pos rfl)

/-- An accepted id is usable exactly when the request carries it. -/
theorem accepted_usable_iff (hdistinct : answerUuid ≠ orderUuid) :
    a.AcceptedUsable request answerUuid orderUuid now ↔ request.orderId.isSome = true := by
  constructor
  · intro h
    have hnamed := (h (request.orderId.getD answerUuid) [] rfl).named
    cases hid : request.orderId with
    | none =>
        rw [Order.fromRequest, hid] at hnamed
        exact absurd hnamed.symm hdistinct
    | some id => rfl
  · intro hsome id queries haccepted
    obtain ⟨id', hid⟩ := Option.isSome_iff_exists.mp hsome
    have hown : id = (Order.fromRequest orderUuid now request).orderId := by
      have hanswer : request.orderId.getD answerUuid = id := OrderResult.accepted.inj haccepted
      rw [← hanswer, Order.fromRequest, hid]
      rfl
    rw [hown]
    refine usable_run (fun message hmessage => ?_)
      (usable_stored a request answerUuid orderUuid now)
    obtain ⟨query, -, rfl⟩ := List.mem_map.mp hmessage
    trivial

end Creation

/-- A request of client "c" that carries the id "o". -/
theorem accepted_usable_ownId :
    "u" ≠ "v" ∧
      (new "n").AcceptedUsable ⟨some "o", "BTC", .buy, some 1, 1, "c", .limit⟩ "u" "v" 0 :=
  ⟨by decide, (accepted_usable_iff (new "n") _ "u" "v" 0 (by decide)).mpr rfl⟩

/-- The same request without an id is accepted as "u" and stored as "v". -/
theorem drawn_id_unusable : ¬ ∀ (a : OrderActor) (request : OrderRequest)
    (answerUuid orderUuid : String) (now : DateTime), answerUuid ≠ orderUuid →
      a.AcceptedUsable request answerUuid orderUuid now := by
  intro h
  have hfound := (h (new "n") ⟨none, "BTC", .buy, some 1, 1, "c", .limit⟩ "u" "v" 0 (by decide)
    "u" [] rfl).found
  exact absurd hfound (by decide +kernel)

end OrderActor

end ActixPura
