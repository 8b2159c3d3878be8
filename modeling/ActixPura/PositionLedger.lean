import ActixPura.StateMachine
import ActixPura.Runs

/-!
# Positions and what was bought and sold

The positions of `models/account.rs`. Next to an account stand, for every symbol, the sum of the
quantity changes that were asked for and the cost that they add up to: a buy adds its price, a sell
removes the average price of the position. A position that is absent counts as one of quantity
zero.

A reduction looks neither at the frozen quantity nor at what is held. It may leave less than what
is frozen, and where more is sold than is held the position is dropped, or nothing happens at all,
while the change is gone. The account stays in step with its record exactly in the runs in which no
change does that.
-/

namespace ActixPura

open Std (ExtTreeMap)

namespace Position

def new (symbol : String) (quantity price : ℚ) : Position := ⟨symbol, quantity, price, 0⟩

def available (p : Position) : ℚ := p.quantity - p.frozen

def update (p : Position) (quantityChange price : ℚ) : Position :=
  if 0 < quantityChange then
    let totalCost := p.quantity * p.avgPrice + quantityChange * price
    let newQuantity := p.quantity + quantityChange
    { p with
      avgPrice := if 0 < newQuantity then totalCost / newQuantity else 0, quantity := newQuantity }
  else { p with quantity := p.quantity + quantityChange }

def freeze (p : Position) (amount : ℚ) : Position × Bool :=
  if p.available < amount then (p, false) else ({ p with frozen := p.frozen + amount }, true)

def unfreeze (p : Position) (amount : ℚ) : Position × Bool :=
  if p.frozen < amount then (p, false) else ({ p with frozen := p.frozen - amount }, true)

@[simp] theorem quantity_update (p : Position) (quantityChange price : ℚ) :
    (p.update quantityChange price).quantity = p.quantity + quantityChange := by
  unfold update
  split_ifs <;> rfl

@[simp] theorem frozen_update (p : Position) (quantityChange price : ℚ) :
    (p.update quantityChange price).frozen = p.frozen := by
  unfold update
  split_ifs <;> rfl

/-- What a change adds to the cost of a position whose average price is the given one. -/
def costOf (avgPrice quantityChange price : ℚ) : ℚ :=
  if 0 < quantityChange then quantityChange * price else quantityChange * avgPrice

theorem cost_update {p : Position} (hp : 0 < p.quantity) (quantityChange price : ℚ) :
    (p.update quantityChange price).quantity * (p.update quantityChange price).avgPrice =
      p.quantity * p.avgPrice + costOf p.avgPrice quantityChange price := by
  unfold update costOf
  split_ifs with hbuy
  · have hpos := add_pos hp hbuy
    simp only [if_pos hpos]
    exact mul_div_cancel₀ _ hpos.ne'
  · exact add_mul _ _ _

end Position

namespace Account

def getPosition (a : Account) (symbol : String) : Option Position := a.positions[symbol]?

def updatePosition (a : Account) (symbol : String) (quantityChange price : ℚ) (now : DateTime) :
    Account :=
  let a := { a with updatedAt := now }
  match a.positions[symbol]? with
  | some pos =>
    let pos := pos.update quantityChange price
    if pos.quantity ≤ 0 then { a with positions := a.positions.erase symbol }
    else { a with positions := a.positions.insert symbol pos }
  | none =>
    if 0 < quantityChange then
      { a with positions :=
          a.positions.insert symbol (Position.new symbol quantityChange price) }
    else a

/-- A method of the position that stands in the account under the symbol. -/
def onPosition (a : Account) (symbol : String) (method : Position → Position × Bool) : Account :=
  match a.positions[symbol]? with
  | some pos => { a with positions := a.positions.insert symbol (method pos).1 }
  | none => a

/-- The position under a symbol, of quantity zero where there is none. -/
def positionOf (a : Account) (symbol : String) : Position :=
  (a.getPosition symbol).getD (Position.new symbol 0 0)

/-- What becomes of the position under the symbol of an update. -/
def adjusted (symbol : String) (quantityChange price : ℚ) : Option Position → Option Position
  | some pos =>
    if (pos.update quantityChange price).quantity ≤ 0 then none
    else some (pos.update quantityChange price)
  | none => if 0 < quantityChange then some (Position.new symbol quantityChange price) else none

variable {a : Account}

theorem getPosition_updatePosition (a : Account) (symbol : String) (quantityChange price : ℚ)
    (now : DateTime) (other : String) :
    (a.updatePosition symbol quantityChange price now).getPosition other =
      if symbol = other then adjusted symbol quantityChange price (a.getPosition symbol)
      else a.getPosition other := by
  simp only [updatePosition, getPosition]
  cases ha : a.positions[symbol]? with
  | some pos =>
      simp only [adjusted]
      split_ifs with hdropped hother hother
      · simp [hother]
      · simp [ExtTreeMap.getElem?_erase, hother]
      · simp [hother]
      · simp [ExtTreeMap.getElem?_insert, hother]
  | none =>
      simp only [adjusted]
      split_ifs with hbuy hother hother
      · simp [hother]
      · simp [ExtTreeMap.getElem?_insert, hother]
      · rw [← hother, ha]
      · rfl

theorem getPosition_onPosition (a : Account) (symbol : String)
    (method : Position → Position × Bool) (other : String) :
    (a.onPosition symbol method).getPosition other =
      if symbol = other then (a.getPosition symbol).map fun pos => (method pos).1
      else a.getPosition other := by
  simp only [onPosition, getPosition]
  cases ha : a.positions[symbol]? with
  | some pos =>
      split_ifs with hother
      · simp [hother]
      · simp [ExtTreeMap.getElem?_insert, hother]
  | none =>
      split_ifs with hother
      · rw [← hother, ha, Option.map_none]
      · rfl

end Account

open scoped NNRat in
/-- What is done to the positions of an account. -/
inductive PositionOp
  | update (symbol : String) (quantityChange : ℚ) (price : ℚ≥0) (now : DateTime)
  | freeze (symbol : String) (amount : ℚ≥0)
  | unfreeze (symbol : String) (amount : ℚ≥0)

/-- An account with the sum of the changes of each symbol and the cost they add up to. -/
structure PositionLedger where
  account : Account
  changes : String → ℚ
  cost : String → ℚ

namespace PositionLedger

def opened (a : Account) : PositionLedger := ⟨{ a with positions := ∅ }, 0, 0⟩

def step (l : PositionLedger) : PositionOp → PositionLedger
  | .update symbol quantityChange price now =>
    ⟨l.account.updatePosition symbol quantityChange price now,
      Function.update l.changes symbol (l.changes symbol + quantityChange),
      Function.update l.cost symbol (l.cost symbol +
        Position.costOf (l.account.positionOf symbol).avgPrice quantityChange price)⟩
  | .freeze symbol amount =>
    { l with account := l.account.onPosition symbol (Position.freeze · amount) }
  | .unfreeze symbol amount =>
    { l with account := l.account.onPosition symbol (Position.unfreeze · amount) }

/-- A position that is in step with the changes of its symbol. -/
structure InStep (p : Position) (changes cost : ℚ) : Prop where
  quantity : p.quantity = changes
  frozen : 0 ≤ p.frozen
  covered : p.frozen ≤ p.quantity
  cost : p.quantity * p.avgPrice = cost

def Coherent (l : PositionLedger) : Prop :=
  ∀ symbol, InStep (l.account.positionOf symbol) (l.changes symbol) (l.cost symbol)

/-- Only positions of a positive quantity are stored. -/
def Stocked (l : PositionLedger) : Prop :=
  ∀ symbol p, l.account.getPosition symbol = some p → 0 < p.quantity

/-- A change of the quantity leaves what is frozen, or nothing at all. -/
def Covered (l : PositionLedger) : PositionOp → Prop
  | .update symbol quantityChange _ _ =>
    (l.account.positionOf symbol).quantity + quantityChange = 0 ∨
      (l.account.positionOf symbol).frozen ≤
        (l.account.positionOf symbol).quantity + quantityChange
  | .freeze _ _ => True
  | .unfreeze _ _ => True

variable {l : PositionLedger} {p : Position} {changes cost : ℚ}

theorem inStep_new (symbol : String) (changes cost : ℚ) :
    InStep (Position.new symbol 0 0) changes cost ↔ changes = 0 ∧ cost = 0 := by
  constructor
  · intro h
    exact ⟨h.quantity.symm, h.cost.symm.trans (zero_mul _)⟩
  · rintro ⟨rfl, rfl⟩
    exact ⟨rfl, le_rfl, le_rfl, zero_mul _⟩

theorem InStep.freeze (h : InStep p changes cost) (amount : ℚ≥0) :
    InStep (p.freeze amount).1 changes cost := by
  unfold Position.freeze Position.available
  split_ifs with hlt
  · exact h
  · refine ⟨h.quantity, add_nonneg h.frozen amount.2, ?_, h.cost⟩
    simp only
    linarith

theorem InStep.unfreeze (h : InStep p changes cost) (amount : ℚ≥0) :
    InStep (p.unfreeze amount).1 changes cost := by
  unfold Position.unfreeze
  split_ifs with hlt
  · exact h
  · refine ⟨h.quantity, sub_nonneg.mpr (not_lt.mp hlt), ?_, h.cost⟩
    have hamount : (0 : ℚ) ≤ amount := amount.2
    have hcovered := h.covered
    simp only
    linarith

/-- A position that the account holds: what is left of it is in step with the change exactly when
the change leaves what is frozen, or nothing. -/
theorem inStep_adjusted_some (hp : 0 < p.quantity) (h : InStep p changes cost) (symbol : String)
    (quantityChange price : ℚ) :
    InStep ((Account.adjusted symbol quantityChange price (some p)).getD (Position.new symbol 0 0))
        (changes + quantityChange) (cost + Position.costOf p.avgPrice quantityChange price) ↔
      p.quantity + quantityChange = 0 ∨ p.frozen ≤ p.quantity + quantityChange := by
  have hcost := Position.cost_update hp quantityChange price
  rw [h.cost] at hcost
  simp only [Account.adjusted, Position.quantity_update]
  split_ifs with hdropped
  · rw [Option.getD_none, inStep_new, ← h.quantity, ← hcost, Position.quantity_update]
    constructor
    · intro hzero
      exact Or.inl hzero.1
    · intro hkept
      have hzero : p.quantity + quantityChange = 0 :=
        hkept.elim id fun hle => le_antisymm hdropped (h.frozen.trans hle)
      exact ⟨hzero, by rw [hzero, zero_mul]⟩
  · rw [Option.getD_some]
    have hleft := not_le.mp hdropped
    constructor
    · intro hstep
      simpa using Or.inr hstep.covered
    · intro hkept
      refine ⟨by rw [Position.quantity_update, h.quantity], by simpa using h.frozen, ?_, hcost⟩
      simpa using hkept.resolve_left hleft.ne'

/-- A symbol that is not held: only a buy, or a change of nothing, is taken up. -/
theorem inStep_adjusted_none (symbol : String) (quantityChange : ℚ) (price : ℚ) :
    InStep ((Account.adjusted symbol quantityChange price none).getD (Position.new symbol 0 0))
        quantityChange (Position.costOf 0 quantityChange price) ↔
      quantityChange = 0 ∨ 0 ≤ quantityChange := by
  simp only [Account.adjusted, Position.costOf]
  split_ifs with hbuy
  · rw [Option.getD_some]
    exact iff_of_true ⟨rfl, le_rfl, hbuy.le, rfl⟩ (Or.inr hbuy.le)
  · rw [Option.getD_none, inStep_new, mul_zero]
    constructor
    · intro hzero
      exact Or.inl hzero.1
    · intro hkept
      exact ⟨hkept.elim id fun hle => le_antisymm (not_lt.mp hbuy) hle, rfl⟩

theorem positionOf_of_ne {a a' : Account} {symbol other : String} {q : Option Position}
    (h : a'.getPosition other = if symbol = other then q else a.getPosition other)
    (hother : symbol ≠ other) : a'.positionOf other = a.positionOf other := by
  rw [Account.positionOf, h, if_neg hother, Account.positionOf]

theorem coherent_update_iff (h : l.Coherent) (hstocked : l.Stocked) (symbol : String)
    (quantityChange : ℚ) (price : ℚ≥0) (now : DateTime) :
    (l.step (.update symbol quantityChange price now)).Coherent ↔
      l.Covered (.update symbol quantityChange price now) := by
  have hget := l.account.getPosition_updatePosition symbol quantityChange price now
  have hsame : InStep ((l.account.updatePosition symbol quantityChange price now).positionOf symbol)
      (l.changes symbol + quantityChange) (l.cost symbol +
        Position.costOf (l.account.positionOf symbol).avgPrice quantityChange price) ↔
      l.Covered (.update symbol quantityChange price now) := by
    have hbefore := h symbol
    simp only [Account.positionOf, Covered, hget, if_true] at hbefore ⊢
    cases hp : l.account.getPosition symbol with
    | some p =>
        rw [hp] at hbefore
        exact inStep_adjusted_some (hstocked symbol p hp) hbefore symbol quantityChange price
    | none =>
        rw [hp] at hbefore
        obtain ⟨hchanges, hcost⟩ := (inStep_new symbol _ _).mp hbefore
        rw [hchanges, hcost]
        simpa [Position.new] using inStep_adjusted_none symbol quantityChange price
  rw [← hsame]
  constructor
  · intro hstep
    simpa [step] using hstep symbol
  · intro hupdated other
    by_cases hother : symbol = other
    · subst hother
      simpa [step] using hupdated
    · have hkept := positionOf_of_ne (hget other) hother
      simpa [step, hkept, Function.update_of_ne (Ne.symm hother)] using h other

theorem coherent_onPosition (h : l.Coherent) (symbol : String) {method : Position → Position × Bool}
    (hmethod : ∀ p changes cost, InStep p changes cost → InStep (method p).1 changes cost) :
    ({ l with account := l.account.onPosition symbol method } : PositionLedger).Coherent := by
  intro other
  have hget := l.account.getPosition_onPosition symbol method other
  by_cases hother : symbol = other
  · subst hother
    have hbefore := h symbol
    simp only [Account.positionOf, hget, if_true] at hbefore ⊢
    cases hp : l.account.getPosition symbol with
    | some p =>
        rw [hp] at hbefore
        exact hmethod p _ _ hbefore
    | none =>
        rw [hp] at hbefore
        exact hbefore
  · simpa only [positionOf_of_ne hget hother] using h other

theorem Stocked.step (h : l.Stocked) (op : PositionOp) : (l.step op).Stocked := by
  intro other p hp
  cases op with
  | update symbol quantityChange price now =>
      rw [PositionLedger.step, Account.getPosition_updatePosition] at hp
      split_ifs at hp with hother
      · cases hq : l.account.getPosition symbol with
        | some q =>
            simp only [hq, Account.adjusted, Option.ite_none_left_eq_some, not_le] at hp
            obtain ⟨hpos, hpq⟩ := hp
            rwa [Option.some.inj hpq] at hpos
        | none =>
            simp only [hq, Account.adjusted, Option.ite_none_right_eq_some] at hp
            obtain ⟨hbuy, hpq⟩ := hp
            rwa [← Option.some.inj hpq]
      · exact h other p hp
  | freeze symbol amount =>
      rw [PositionLedger.step, Account.getPosition_onPosition] at hp
      split_ifs at hp with hother
      · obtain ⟨q, hq, rfl⟩ := Option.map_eq_some_iff.mp hp
        have hquantity : (q.freeze amount).1.quantity = q.quantity := by
          unfold Position.freeze
          split_ifs <;> rfl
        rw [hquantity]
        exact h symbol q hq
      · exact h other p hp
  | unfreeze symbol amount =>
      rw [PositionLedger.step, Account.getPosition_onPosition] at hp
      split_ifs at hp with hother
      · obtain ⟨q, hq, rfl⟩ := Option.map_eq_some_iff.mp hp
        have hquantity : (q.unfreeze amount).1.quantity = q.quantity := by
          unfold Position.unfreeze
          split_ifs <;> rfl
        rw [hquantity]
        exact h symbol q hq
      · exact h other p hp

theorem coherent_step_iff (h : l.Coherent) (hstocked : l.Stocked) (op : PositionOp) :
    (l.step op).Coherent ↔ l.Covered op := by
  cases op with
  | update symbol quantityChange price now =>
      exact coherent_update_iff h hstocked symbol quantityChange price now
  | freeze symbol amount =>
      exact iff_of_true (coherent_onPosition h symbol fun _ _ _ hp => hp.freeze amount) trivial
  | unfreeze symbol amount =>
      exact iff_of_true (coherent_onPosition h symbol fun _ _ _ hp => hp.unfreeze amount) trivial

theorem opened_coherent (a : Account) : (opened a).Coherent ∧ (opened a).Stocked := by
  constructor
  · intro symbol
    simpa [opened, Account.positionOf, Account.getPosition] using
      (inStep_new symbol 0 0).mpr ⟨rfl, rfl⟩
  · intro symbol p hp
    simp [opened, Account.getPosition] at hp

/-- The positions of an account are in step with the changes after every step of a run exactly when
every change left what was frozen, or nothing. -/
theorem coherent_iff_covered (a : Account) (ops : List PositionOp) :
    (∀ before after, ops = before ++ after → (Runs.run step (opened a) before).Coherent) ↔
      Runs.Admissible step Covered (opened a) ops := by
  have hiff : ∀ (l : PositionLedger) op, l.Coherent ∧ l.Stocked →
      (l.Covered op ↔ (l.step op).Coherent ∧ (l.step op).Stocked) := by
    rintro l op ⟨h, hstocked⟩
    rw [and_iff_left (hstocked.step op)]
    exact (coherent_step_iff h hstocked op).symm
  rw [Runs.admissible_iff_forall_run hiff (opened_coherent a)]
  have hstocked : ∀ before, (Runs.run step (opened a) before).Stocked := fun before =>
    Runs.invariant_run_of_mem (I := Stocked) (fun _ op _ h => h.step op) (opened_coherent a).2
  constructor
  · intro h before after heq
    exact ⟨h before after heq, hstocked before⟩
  · intro h before after heq
    exact (h before after heq).1

def trader : Account := ⟨"a", "A", 0, 0, 0, ∅, 0, 0⟩

/-- Ten units are bought and eight of them frozen, then five are sold: three of the frozen ones
are no longer there. -/
theorem not_coherent : ¬ ∀ (a : Account) (ops : List PositionOp) before after,
    ops = before ++ after → (Runs.run step (opened a) before).Coherent := by
  intro h
  have hrun := h trader [.update "X" 10 1 1, .freeze "X" 8, .update "X" (-5) 1 2] _ []
    (List.append_nil _).symm "X"
  exact absurd hrun.covered (by decide +kernel)

end PositionLedger

end ActixPura
