import ActixPura.AccountActor

/-!
# The transfers of the actor and the methods of the account

`actor/account.rs` and `models/account.rs` move money twice: `transfer_funds` rewrites the fields of
a cloned account and files it again, and the account has a method of its own for each type of
transfer. Here the two are compared on every store that the actor can hold, for one transfer and for
any number of them. The two read the clock separately, so they agree in every field but the time of
the last update.

The actor files an account under the account's own id, whatever id the request named. That no other
account is touched rests on the store being keyed by these ids, and only `store_account` writes it.
-/

namespace ActixPura

open Std (ExtTreeMap)

namespace Account

/-- The same account up to the time of its last update. -/
def SameFunds (a b : Account) : Prop := a = { b with updatedAt := a.updatedAt }

variable {a b : Account}

theorem SameFunds.refl (a : Account) : a.SameFunds a := rfl

/-- The method that a type of transfer stands for; a type of no method is refused. -/
def method (transferType : String) (a : Account) (amount : ℚ) (now : DateTime) : Account × Bool :=
  match transferType with
  | "DEPOSIT" => (a.deposit amount now, true)
  | "WITHDRAW" => a.withdraw amount now
  | "FREEZE" => a.freezeFunds amount now
  | "UNFREEZE" => a.unfreezeFunds amount now
  | _ => (a, false)

theorem SameFunds.method (h : a.SameFunds b) (transferType : String) (amount : ℚ)
    (now now' : DateTime) :
    (a.method transferType amount now).2 = (b.method transferType amount now').2 ∧
      (a.method transferType amount now).1.SameFunds (b.method transferType amount now').1 := by
  rw [h]
  unfold Account.method
  split
  · exact ⟨rfl, rfl⟩
  · unfold withdraw
    split_ifs
    · exact ⟨rfl, rfl⟩
    · exact ⟨rfl, rfl⟩
  · unfold freezeFunds
    split_ifs
    · exact ⟨rfl, rfl⟩
    · exact ⟨rfl, rfl⟩
  · unfold unfreezeFunds
    split_ifs
    · exact ⟨rfl, rfl⟩
    · exact ⟨rfl, rfl⟩
  · exact ⟨rfl, rfl⟩

theorem rel_method {x y : Option Account} (h : Option.Rel SameFunds x y) (transferType : String)
    (amount : ℚ) (now now' : DateTime) :
    Option.Rel SameFunds (x.map fun a => (a.method transferType amount now).1)
      (y.map fun a => (a.method transferType amount now').1) := by
  cases h with
  | some hsame => exact .some (hsame.method transferType amount now now').2
  | none => exact .none

theorem method_refused {transferType : String} {amount : ℚ} {now : DateTime}
    (h : (a.method transferType amount now).2 = false) :
    (a.method transferType amount now).1 = a := by
  revert h
  unfold method
  split
  · intro h
    cases h
  · exact guarded_refused
  · exact guarded_refused
  · exact guarded_refused
  · exact fun _ => rfl

end Account

namespace AccountActor

open Account (SameFunds rel_method)

/-- Every account stands under its own id. -/
def Keyed (s : AccountActor) : Prop :=
  ∀ (id : String) (a : Account), s.getAccount id = some a → a.id = id

variable {s : AccountActor}

theorem getAccount_storeAccount (s : AccountActor) (a : Account) (id : String) :
    (s.storeAccount a).getAccount id = if a.id = id then some a else s.getAccount id := by
  simp only [getAccount, storeAccount, ExtTreeMap.getElem?_insert, Std.compare_eq_iff_eq]

theorem Keyed.storeAccount (h : s.Keyed) (a : Account) : (s.storeAccount a).Keyed := by
  intro id b hb
  rw [getAccount_storeAccount] at hb
  split_ifs at hb with hid
  · rwa [← Option.some.inj hb]
  · exact h id b hb

/-- What the transfer of the actor does to the account, in the words of its method. -/
theorem transferred_method (a : Account) (amount : ℚ) (transferType : String) (now : DateTime) :
    ((transferred a amount transferType).toOption.map fun b => { b with updatedAt := now }) =
      if (a.method transferType amount now).2 then some (a.method transferType amount now).1
      else none := by
  have hmap : ∀ outcome : Except String Account,
      (outcome.toOption.map fun b => { b with updatedAt := now }) =
        (outcome.map fun b => { b with updatedAt := now }).toOption := by
    intro outcome
    cases outcome <;> rfl
  rw [hmap, transferred_stamped]
  unfold Account.method
  split
  · rfl
  · change _ = if (a.withdraw amount now).2 then some (a.withdraw amount now).1 else none
    cases (a.withdraw amount now).2 <;> rfl
  · change _ = if (a.freezeFunds amount now).2 then some (a.freezeFunds amount now).1 else none
    cases (a.freezeFunds amount now).2 <;> rfl
  · change _ = if (a.unfreezeFunds amount now).2 then some (a.unfreezeFunds amount now).1 else none
    cases (a.unfreezeFunds amount now).2 <;> rfl
  · simp only [Except.toOption]
    simp [*]

def answer (s : AccountActor) (r : FundTransfer) : FundTransferResult :=
  (s.transferFunds r.accountId r.amount r.transferType r.reference r.now).2

theorem transferFunds_of_none {r : FundTransfer} (h : s.getAccount r.accountId = none) :
    s.step r = s ∧ s.answer r = .error "Account not found" := by
  simp [step, answer, transferFunds, h]

theorem transferFunds_of_accepted {r : FundTransfer} {a : Account}
    (h : s.getAccount r.accountId = some a)
    (haccepted : (a.method r.transferType r.amount r.now).2 = true) :
    s.step r = s.storeAccount (a.method r.transferType r.amount r.now).1 ∧
      s.answer r = .success (a.method r.transferType r.amount r.now).1 := by
  have hmethod := transferred_method a r.amount r.transferType r.now
  rw [if_pos haccepted] at hmethod
  simp only [step, answer, transferFunds, h]
  cases hout : transferred a r.amount r.transferType with
  | error message =>
      rw [hout] at hmethod
      cases hmethod
  | ok b =>
      rw [hout] at hmethod
      have hb := Option.some.inj hmethod
      exact ⟨congrArg s.storeAccount hb, congrArg FundTransferResult.success hb⟩

theorem transferFunds_of_refused {r : FundTransfer} {a : Account}
    (h : s.getAccount r.accountId = some a)
    (hrefused : (a.method r.transferType r.amount r.now).2 = false) :
    s.step r = s ∧ ∃ message, s.answer r = .error message := by
  have hmethod := transferred_method a r.amount r.transferType r.now
  rw [if_neg (by simp [hrefused])] at hmethod
  simp only [step, answer, transferFunds, h]
  cases hout : transferred a r.amount r.transferType with
  | error message => exact ⟨rfl, message, rfl⟩
  | ok b =>
      rw [hout] at hmethod
      cases hmethod

theorem method_id (a : Account) (transferType : String) (amount : ℚ) (now : DateTime) :
    (a.method transferType amount now).1.id = a.id := by
  unfold Account.method
  split
  · rfl
  · exact apply_ite (fun p : Account × Bool => p.1.id) _ _ _ |>.trans (ite_self _)
  · exact apply_ite (fun p : Account × Bool => p.1.id) _ _ _ |>.trans (ite_self _)
  · exact apply_ite (fun p : Account × Bool => p.1.id) _ _ _ |>.trans (ite_self _)
  · rfl

/-- What a transfer files is what the method of the account, where there is one, leaves of it. -/
theorem getAccount_step (h : s.Keyed) (r : FundTransfer) (id : String) :
    (s.step r).getAccount id =
      if r.accountId = id then
        (s.getAccount id).map fun a => (a.method r.transferType r.amount r.now).1
      else s.getAccount id := by
  cases ha : s.getAccount r.accountId with
  | none =>
      rw [(transferFunds_of_none ha).1]
      split_ifs with hid
      · rw [← hid, ha]
        rfl
      · rfl
  | some a =>
      cases hok : (a.method r.transferType r.amount r.now).2 with
      | true =>
          rw [(transferFunds_of_accepted ha hok).1, getAccount_storeAccount, method_id,
            h r.accountId a ha]
          split_ifs with hid
          · rw [← hid, ha]
            rfl
          · rfl
      | false =>
          rw [(transferFunds_of_refused ha hok).1]
          split_ifs with hid
          · rw [← hid, ha, Option.map_some, Account.method_refused hok]
          · rfl

theorem Keyed.step (h : s.Keyed) (r : FundTransfer) : (s.step r).Keyed := by
  intro id b hb
  rw [getAccount_step h] at hb
  split_ifs at hb
  · obtain ⟨a, ha, rfl⟩ := Option.map_eq_some_iff.mp hb
    rw [method_id]
    exact h id a ha
  · exact h id b hb

/-- The transfer and the method of the account, whose clock is read at another time. -/
structure Agrees (s : AccountActor) (r : FundTransfer) (now : DateTime) : Prop where
  succeeds : (∃ b, s.answer r = .success b) ↔ ∃ a, s.getAccount r.accountId = some a ∧
    (a.method r.transferType r.amount now).2 = true
  funds : ∀ a b, s.getAccount r.accountId = some a → s.answer r = .success b →
    b.SameFunds (a.method r.transferType r.amount now).1 ∧
      (s.step r).getAccount r.accountId = some b
  error : ∀ message, s.answer r = .error message → s.step r = s
  others : ∀ id, id ≠ r.accountId → (s.step r).getAccount id = s.getAccount id

/-- The accounts under their own methods: the method that a request names is called on the account
of that id, with the clock reading that stands next to the request. -/
def callMethod (accounts : String → Option Account) (call : FundTransfer × DateTime) :
    String → Option Account :=
  Function.update accounts call.1.accountId ((accounts call.1.accountId).map fun a =>
    (a.method call.1.transferType call.1.amount call.2).1)

/-- The store of the actor and accounts that only their methods change. -/
def Matches (s : AccountActor) (accounts : String → Option Account) : Prop :=
  ∀ id, Option.Rel SameFunds (s.getAccount id) (accounts id)

theorem Matches.step {accounts : String → Option Account} (hkeyed : s.Keyed)
    (h : s.Matches accounts) (call : FundTransfer × DateTime) :
    (s.step call.1).Matches (callMethod accounts call) := by
  intro id
  rw [getAccount_step hkeyed, callMethod]
  by_cases hid : call.1.accountId = id
  · subst hid
    rw [if_pos rfl, Function.update_self]
    exact rel_method (h call.1.accountId) _ _ _ _
  · rw [if_neg hid, Function.update_of_ne (Ne.symm hid)]
    exact h id

theorem Matches.run {accounts : String → Option Account} (hkeyed : s.Keyed)
    (h : s.Matches accounts) (calls : List (FundTransfer × DateTime)) :
    (Runs.run AccountActor.step s (calls.map Prod.fst)).Matches
      (Runs.run callMethod accounts calls) := by
  induction calls generalizing s accounts with
  | nil => exact h
  | cons call calls ih => exact ih (hkeyed.step call.1) (h.step hkeyed call)

end AccountActor

end ActixPura
