import ActixPura.StateMachine
import ActixPura.Runs

/-!
# The account actor and its ledger

`actor/account.rs` and the money methods of `models/account.rs`. A fund transfer reads an account,
changes `balance`, `available` and `frozen` by the type of the transfer and stores the account
again. The amount is never checked for its sign: the guards of `WITHDRAW`, `FREEZE` and `UNFREEZE`
protect the field that a positive amount decreases, and a negative amount decreases another one.

The ledger invariant is that `balance` is the sum of the other two and that these are not negative.
It holds after every request of a run exactly when each request left the unguarded field covered.
-/

namespace ActixPura

open Std (ExtTreeMap)

namespace Account

def freezeFunds (a : Account) (amount : ℚ) (now : DateTime) : Account × Bool :=
  if a.available < amount then (a, false)
  else ({ a with
    available := a.available - amount, frozen := a.frozen + amount, updatedAt := now }, true)

def unfreezeFunds (a : Account) (amount : ℚ) (now : DateTime) : Account × Bool :=
  if a.frozen < amount then (a, false)
  else ({ a with
    frozen := a.frozen - amount, available := a.available + amount, updatedAt := now }, true)

def deposit (a : Account) (amount : ℚ) (now : DateTime) : Account :=
  { a with
    balance := a.balance + amount, available := a.available + amount, updatedAt := now }

def withdraw (a : Account) (amount : ℚ) (now : DateTime) : Account × Bool :=
  if a.available < amount then (a, false)
  else ({ a with
    balance := a.balance - amount, available := a.available - amount, updatedAt := now }, true)

structure Ledger (a : Account) : Prop where
  balance : a.balance = a.available + a.frozen
  available : 0 ≤ a.available
  frozen : 0 ≤ a.frozen

/-- An account as it is opened. -/
structure Opened (a : Account) : Prop where
  balance : a.balance = a.available
  available : 0 ≤ a.available
  frozen : a.frozen = 0

variable {a : Account}

theorem Opened.ledger (h : a.Opened) : a.Ledger :=
  ⟨by rw [h.balance, h.frozen, add_zero], h.available, h.frozen.ge⟩

/-- A guarded method that answers `false` returns the account it was given. -/
theorem guarded_refused {refuse : Prop} [Decidable refuse] {b : Account}
    (h : (if refuse then (a, false) else (b, true)).2 = false) :
    (if refuse then (a, false) else (b, true)).1 = a := by
  split_ifs at h ⊢
  rfl

theorem ledger_deposit_iff (h : a.Ledger) (amount : ℚ) (now : DateTime) :
    (a.deposit amount now).Ledger ↔ 0 ≤ a.available + amount := by
  constructor
  · intro hl
    exact hl.available
  · intro hcovered
    refine ⟨?_, hcovered, h.frozen⟩
    simp only [deposit, h.balance]
    ring

theorem ledger_withdraw (h : a.Ledger) (amount : ℚ) (now : DateTime) :
    (a.withdraw amount now).1.Ledger := by
  unfold withdraw
  split_ifs with hlt
  · exact h
  · refine ⟨?_, sub_nonneg.mpr (not_lt.mp hlt), h.frozen⟩
    simp only [h.balance]
    ring

theorem ledger_freezeFunds_iff (h : a.Ledger) (amount : ℚ) (now : DateTime) :
    (a.freezeFunds amount now).1.Ledger ↔ (amount ≤ a.available → 0 ≤ a.frozen + amount) := by
  unfold freezeFunds
  split_ifs with hlt
  · exact ⟨fun _ hle => absurd hle (not_le.mpr hlt), fun _ => h⟩
  · have hle := not_lt.mp hlt
    refine ⟨fun hl _ => hl.frozen, fun hcovered => ⟨?_, sub_nonneg.mpr hle, hcovered hle⟩⟩
    simp only [h.balance]
    ring

theorem ledger_unfreezeFunds_iff (h : a.Ledger) (amount : ℚ) (now : DateTime) :
    (a.unfreezeFunds amount now).1.Ledger ↔ (amount ≤ a.frozen → 0 ≤ a.available + amount) := by
  unfold unfreezeFunds
  split_ifs with hlt
  · exact ⟨fun _ hle => absurd hle (not_le.mpr hlt), fun _ => h⟩
  · have hle := not_lt.mp hlt
    refine ⟨fun hl _ => hl.available, fun hcovered => ⟨?_, hcovered hle, sub_nonneg.mpr hle⟩⟩
    simp only [h.balance]
    ring

end Account

inductive FundTransferResult
  | success (account : Account)
  | error (message : String)

structure FundTransfer where
  accountId : String
  amount : ℚ
  transferType : String
  reference : Option String
  now : DateTime

structure AccountActor where
  nodeId : String
  accounts : ExtTreeMap String Account compare

namespace AccountActor

def getAccount (s : AccountActor) (accountId : String) : Option Account := s.accounts[accountId]?

def storeAccount (s : AccountActor) (account : Account) : AccountActor :=
  { s with accounts := s.accounts.insert account.id account }

/-- The account after the transfer, before it is stored. -/
def transferred (account : Account) (amount : ℚ) (transferType : String) :
    Except String Account :=
  match transferType with
  | "DEPOSIT" => .ok { account with
      balance := account.balance + amount, available := account.available + amount }
  | "WITHDRAW" =>
    if account.available < amount then .error "Insufficient available funds"
    else .ok { account with
      balance := account.balance - amount, available := account.available - amount }
  | "FREEZE" =>
    if account.available < amount then .error "Insufficient available funds to freeze"
    else .ok { account with
      available := account.available - amount, frozen := account.frozen + amount }
  | "UNFREEZE" =>
    if account.frozen < amount then .error "Insufficient frozen funds to unfreeze"
    else .ok { account with
      frozen := account.frozen - amount, available := account.available + amount }
  | _ => .error "Invalid transfer type"

/-- The reference is only mentioned in code that is commented out. -/
def transferFunds (s : AccountActor) (accountId : String) (amount : ℚ) (transferType : String)
    (_reference : Option String) (now : DateTime) : AccountActor × FundTransferResult :=
  match s.getAccount accountId with
  | none => (s, .error "Account not found")
  | some account =>
    match transferred account amount transferType with
    | .error message => (s, .error message)
    | .ok account =>
      let account := { account with updatedAt := now }
      (s.storeAccount account, .success account)

def step (s : AccountActor) (r : FundTransfer) : AccountActor :=
  (s.transferFunds r.accountId r.amount r.transferType r.reference r.now).1

def Balanced (s : AccountActor) : Prop :=
  ∀ (id : String) (a : Account), s.accounts[id]? = some a → a.Ledger

/-- The field that the guard of the transfer does not look at can take the amount. -/
def Covered (s : AccountActor) (r : FundTransfer) : Prop :=
  ∀ a, s.accounts[r.accountId]? = some a →
    match r.transferType with
    | "DEPOSIT" => 0 ≤ a.available + r.amount
    | "FREEZE" => r.amount ≤ a.available → 0 ≤ a.frozen + r.amount
    | "UNFREEZE" => r.amount ≤ a.frozen → 0 ≤ a.available + r.amount
    | _ => True

variable {s : AccountActor}

theorem balanced_storeAccount_iff (h : s.Balanced) (a : Account) :
    (s.storeAccount a).Balanced ↔ a.Ledger := by
  constructor
  · intro hs
    exact hs a.id a (by simp [storeAccount])
  · intro ha id b hb
    simp only [storeAccount, ExtTreeMap.getElem?_insert] at hb
    split_ifs at hb
    · rwa [← Option.some_injective _ hb]
    · exact h id b hb

/-- The actor moves money as the methods of the account do: a transfer that they refuse is refused
with an error, any other one leaves the account they leave. -/
theorem transferred_stamped (a : Account) (amount : ℚ) (transferType : String) (now : DateTime) :
    (transferred a amount transferType).map (fun b => { b with updatedAt := now }) =
      match transferType with
      | "DEPOSIT" => .ok (a.deposit amount now)
      | "WITHDRAW" =>
        if (a.withdraw amount now).2 then .ok (a.withdraw amount now).1
        else .error "Insufficient available funds"
      | "FREEZE" =>
        if (a.freezeFunds amount now).2 then .ok (a.freezeFunds amount now).1
        else .error "Insufficient available funds to freeze"
      | "UNFREEZE" =>
        if (a.unfreezeFunds amount now).2 then .ok (a.unfreezeFunds amount now).1
        else .error "Insufficient frozen funds to unfreeze"
      | _ => .error "Invalid transfer type" := by
  unfold transferred
  split
  · rfl
  · by_cases hlt : a.available < amount
    · simp [Account.withdraw, hlt, Except.map]
    · simp [Account.withdraw, hlt, Except.map]
  · by_cases hlt : a.available < amount
    · simp [Account.freezeFunds, hlt, Except.map]
    · simp [Account.freezeFunds, hlt, Except.map]
  · by_cases hlt : a.frozen < amount
    · simp [Account.unfreezeFunds, hlt, Except.map]
    · simp [Account.unfreezeFunds, hlt, Except.map]
  · rfl

theorem step_of_none {r : FundTransfer} (h : s.accounts[r.accountId]? = none) : s.step r = s := by
  simp [step, transferFunds, getAccount, h]

/-- The store after a transfer with the given outcome. -/
def settle (s : AccountActor) : Except String Account → AccountActor
  | .error _ => s
  | .ok b => s.storeAccount b

theorem step_of_some {r : FundTransfer} {a : Account} (h : s.accounts[r.accountId]? = some a) :
    s.step r = s.settle ((transferred a r.amount r.transferType).map
      fun b => { b with updatedAt := r.now }) := by
  simp only [step, transferFunds, getAccount, h]
  cases transferred a r.amount r.transferType <;> rfl

/-- A method that refuses leaves the account as it was, so the store is balanced exactly when the
account that the method returns is. -/
theorem balanced_settle_iff (h : s.Balanced) {a : Account} (ha : a.Ledger)
    (outcome : Account × Bool) (hrefused : outcome.2 = false → outcome.1 = a) (message : String) :
    (s.settle (if outcome.2 then .ok outcome.1 else .error message)).Balanced ↔
      outcome.1.Ledger := by
  cases hok : outcome.2 with
  | true => exact balanced_storeAccount_iff h outcome.1
  | false =>
      rw [hrefused hok]
      exact ⟨fun _ => ha, fun _ => h⟩

theorem balanced_step_iff (h : s.Balanced) (r : FundTransfer) :
    (s.step r).Balanced ↔ s.Covered r := by
  cases ha : s.accounts[r.accountId]? with
  | none =>
      rw [step_of_none ha]
      exact ⟨fun _ a hsome => by simp [ha] at hsome, fun _ => h⟩
  | some a =>
      have hl := h _ a ha
      rw [step_of_some ha, transferred_stamped]
      simp only [Covered, ha, Option.some.injEq, forall_eq']
      generalize r.transferType = transferType
      split
      · exact (balanced_storeAccount_iff h _).trans (a.ledger_deposit_iff hl r.amount r.now)
      · rw [balanced_settle_iff h hl (a.withdraw r.amount r.now) Account.guarded_refused]
        exact iff_of_true (a.ledger_withdraw hl r.amount r.now) trivial
      · rw [balanced_settle_iff h hl (a.freezeFunds r.amount r.now) Account.guarded_refused]
        exact a.ledger_freezeFunds_iff hl r.amount r.now
      · rw [balanced_settle_iff h hl (a.unfreezeFunds r.amount r.now) Account.guarded_refused]
        exact a.ledger_unfreezeFunds_iff hl r.amount r.now
      · split
        · contradiction
        · contradiction
        · contradiction
        · exact iff_of_true h trivial

/-- Accounts as they are opened keep a balanced ledger after every request of a run exactly when
every request was covered. -/
theorem ledger_iff_covered (s : AccountActor) (requests : List FundTransfer)
    (hs : ∀ (id : String) (a : Account), s.accounts[id]? = some a → a.Opened) :
    (∀ before request after, requests = before ++ request :: after →
        Balanced (Runs.run step s (before ++ [request]))) ↔
      Runs.Admissible step Covered s requests := by
  have hruns : (∀ before request after, requests = before ++ request :: after →
      Balanced (Runs.run step s (before ++ [request]))) ↔
        Runs.Admissible step (fun s r => (s.step r).Balanced) s requests := by
    simp only [Runs.admissible_iff_forall, Runs.run_append, Runs.run_cons, Runs.run_nil]
  rw [hruns]
  have hbalanced : s.Balanced := fun id a ha => (hs id a ha).ledger
  exact Runs.admissible_congr (I := Balanced) (P := fun _ => True)
    (fun _ _ _ _ hstep => hstep) (fun _ r h _ => balanced_step_iff h r) hbalanced
    fun _ _ => trivial

/-- One account with 100 units. -/
def savings : AccountActor :=
  ⟨"node", ExtTreeMap.empty.insert "a" ⟨"a", "A", 100, 100, 0, ∅, 0, 0⟩⟩

theorem savings_opened (id : String) (a : Account) (h : savings.accounts[id]? = some a) :
    a.Opened := by
  simp only [savings, ExtTreeMap.getElem?_insert] at h
  split_ifs at h
  · rw [Option.some.injEq] at h
    subst h
    exact ⟨rfl, by norm_num, rfl⟩
  · simp at h

/-- 30 of 100 units are frozen and 40 of the others are withdrawn. -/
theorem savings_ledger :
    (∀ (id : String) (a : Account), savings.accounts[id]? = some a → a.Opened) ∧
      ∀ before request after, [FundTransfer.mk "a" 30 "FREEZE" none 1,
          FundTransfer.mk "a" 40 "WITHDRAW" none 2] = before ++ request :: after →
        Balanced (Runs.run step savings (before ++ [request])) := by
  refine ⟨savings_opened, (ledger_iff_covered savings _ savings_opened).mpr ?_⟩
  refine ⟨fun a ha => ?_, fun _ _ => trivial, trivial⟩
  have hfrozen := (savings_opened _ a ha).frozen
  exact fun _ => by rw [hfrozen]; norm_num

/-- Freezing a negative amount leaves negative frozen funds. -/
theorem not_ledger : ¬ ∀ (s : AccountActor) (requests : List FundTransfer),
    (∀ (id : String) (a : Account), s.accounts[id]? = some a → a.Opened) →
      ∀ before request after, requests = before ++ request :: after →
        Balanced (Runs.run step s (before ++ [request])) := by
  intro h
  have hrun := h savings [⟨"a", -10, "FREEZE", none, 1⟩] savings_opened [] _ [] rfl
  have hledger := hrun "a" _ rfl
  exact absurd hledger.frozen (by decide +kernel)

end AccountActor

end ActixPura
