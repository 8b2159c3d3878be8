import ActixPura.OrderActor
import ActixPura.Runs

/-!
# Isolation of accounts in the order store

`cancel_order` compares the account of the stored order with the client, `store_order` compares
nothing. A creation that reuses an order id of another account therefore replaces that account's
order, and it is the only message that touches a foreign order.
-/

namespace ActixPura

open Std (ExtTreeMap)

/-- A message together with the outside readings taken while it is handled. -/
inductive OrderMessage
  | create (request : OrderRequest) (answerUuid orderUuid : String) (now : DateTime)
  | cancel (request : CancelOrderRequest) (now : DateTime)
  | query (query : OrderQuery)

/-- A query carries no client. -/
def OrderMessage.clientId : OrderMessage → Option String
  | .create request _ _ _ => some request.clientId
  | .cancel request _ => some request.clientId
  | .query _ => none

namespace OrderActor

def handle (a : OrderActor) : OrderMessage → OrderActor
  | .create request answerUuid orderUuid now =>
    (a.handleCreateOrder request answerUuid orderUuid now).1
  | .cancel request now => (a.handleCancelOrder request now).1
  | .query query => (a.handleQueryOrder query).1

/-- Every stored order of an account other than the sender's is kept as it is. -/
def Isolated (a : OrderActor) (message : OrderMessage) : Prop :=
  ∀ (id : String) (o : Order), a.orders[id]? = some o → message.clientId ≠ some o.accountId →
    (a.handle message).orders[id]? = some o

/-- A new order takes an id that no other account has in the store. -/
def OwnId (a : OrderActor) : OrderMessage → Prop
  | .create request _ orderUuid _ =>
    ∀ o, a.orders[request.orderId.getD orderUuid]? = some o → o.accountId = request.clientId
  | _ => True

variable {a : OrderActor}

theorem handle_create_lookup (request : OrderRequest) (answerUuid orderUuid : String)
    (now : DateTime) (id : String) :
    (a.handle (.create request answerUuid orderUuid now)).orders[id]? =
      if request.orderId.getD orderUuid = id then some (Order.fromRequest orderUuid now request)
      else a.orders[id]? := by
  rw [handle, handleCreateOrder_eq]
  exact storeOrder_lookup a _ id

theorem isolated_create_iff (request : OrderRequest) (answerUuid orderUuid : String)
    (now : DateTime) : a.Isolated (.create request answerUuid orderUuid now) ↔
      a.OwnId (.create request answerUuid orderUuid now) := by
  constructor
  · intro h o ho
    by_contra hne
    have hkept := h _ o ho fun heq => hne (Option.some_injective _ heq).symm
    rw [handle_create_lookup, if_pos rfl, Option.some.injEq] at hkept
    exact hne (by rw [← hkept]; rfl)
  · intro h id o ho hne
    rw [handle_create_lookup, if_neg, ho]
    rintro rfl
    exact hne (by rw [h o ho]; rfl)

theorem isolated_cancel (request : CancelOrderRequest) (now : DateTime) :
    a.Isolated (.cancel request now) := by
  intro id o ho hne
  simp only [handle, handleCancelOrder, cancelOrder]
  cases hid : a.orders[request.orderId]? with
  | none => exact ho
  | some e =>
      dsimp only
      split_ifs with howner hcan
      · exact ho
      · exact ho
      · have hother : request.orderId ≠ id := by
          rintro rfl
          rw [hid, Option.some.injEq] at ho
          subst ho
          exact hne (by rw [not_not.mp howner]; rfl)
        simpa [ExtTreeMap.getElem?_insert, hother] using ho

theorem isolated_iff (message : OrderMessage) : a.Isolated message ↔ a.OwnId message := by
  cases message with
  | create request answerUuid orderUuid now =>
      exact isolated_create_iff request answerUuid orderUuid now
  | cancel request now => exact ⟨fun _ => trivial, fun _ => isolated_cancel request now⟩
  | query query => exact ⟨fun _ => trivial, fun _ _ _ ho _ => ho⟩

/-- Every message of a run leaves the orders of other accounts alone exactly when every created
order takes an id that no other account has in the store at that moment. -/
theorem accounts_isolated_iff (nodeId : String) (messages : List OrderMessage) :
    (∀ before message after, messages = before ++ message :: after →
        (Runs.run handle (new nodeId) before).Isolated message) ↔
      Runs.Admissible handle OwnId (new nodeId) messages := by
  rw [← Runs.admissible_iff_forall]
  exact Runs.admissible_congr (I := fun _ => True) (P := fun _ => True)
    (fun _ _ _ _ _ => trivial) (fun a message _ _ => isolated_iff message) trivial
    fun _ _ => trivial

/-- The order "o" of one client is replaced when another client creates an order of that id. -/
theorem not_accounts_isolated : ¬ ∀ (nodeId : String) (messages : List OrderMessage),
    ∀ before message after, messages = before ++ message :: after →
      (Runs.run handle (new nodeId) before).Isolated message := by
  intro h
  let first : OrderMessage := .create ⟨some "o", "BTC", .buy, none, 1, "alice", .market⟩ "u" "v" 0
  let second : OrderMessage := .create ⟨some "o", "BTC", .buy, none, 1, "bob", .market⟩ "u" "v" 1
  have hisolated := h "n" [first, second] [first] second [] rfl "o" _ rfl (by decide +kernel)
  exact absurd hisolated (by decide +kernel)

end OrderActor

end ActixPura
