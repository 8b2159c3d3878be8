import Mathlib

/-!
# Machines that are polled

A polled machine answers that it is pending, that it has an item, or that it has ended. `Yields`
says by a view and a measure what a machine still has to give: every poll takes at most the first
item from the view and lowers the measure. The items of any number of polls are then a prefix of
the view, and with enough polls they are all of it, followed by the end.
-/

namespace ActixPura.Polling

inductive Poll (α : Type*)
  | pending
  | ready (a : α)
  deriving DecidableEq

section Machines

variable {σ β : Type*} (poll : σ → σ × Poll (Option β))

structure Yields (rest : σ → List β) (cost : σ → ℕ) : Prop where
  pending : ∀ s, (poll s).2 = .pending → rest (poll s).1 = rest s ∧ cost (poll s).1 < cost s
  item : ∀ s b, (poll s).2 = .ready (some b) →
    rest s = b :: rest (poll s).1 ∧ cost (poll s).1 < cost s
  ended : ∀ s, (poll s).2 = .ready none → rest s = []

/-- The items of the first `n` polls, and whether the end was among the answers. -/
def outputs : ℕ → σ → List β × Bool
  | 0, _ => ([], false)
  | n + 1, s =>
    match (poll s).2 with
    | .pending => outputs n (poll s).1
    | .ready none => ([], true)
    | .ready (some b) => (b :: (outputs n (poll s).1).1, (outputs n (poll s).1).2)

variable {poll} {rest : σ → List β} {cost : σ → ℕ}

theorem Yields.outputs_begin (h : Yields poll rest cost) (n : ℕ) (s : σ) :
    (outputs poll n s).1 <+: rest s := by
  induction n generalizing s with
  | zero => exact List.nil_prefix
  | succ n ih =>
      rw [outputs]
      split
      · next hpending =>
          rw [← (h.pending s hpending).1]
          exact ih _
      · exact List.nil_prefix
      · next b hitem =>
          rw [(h.item s b hitem).1]
          exact List.prefix_cons_inj b |>.mpr (ih _)

theorem Yields.outputs_eq (h : Yields poll rest cost) {n : ℕ} {s : σ} (hn : cost s < n) :
    outputs poll n s = (rest s, true) := by
  induction n generalizing s with
  | zero => exact absurd hn (Nat.not_lt_zero _)
  | succ n ih =>
      rw [outputs]
      split
      · next hpending =>
          obtain ⟨hrest, hcost⟩ := h.pending s hpending
          rw [ih (by omega), hrest]
      · next hended => rw [h.ended s hended]
      · next b hitem =>
          obtain ⟨hrest, hcost⟩ := h.item s b hitem
          rw [ih (by omega), hrest]

end Machines

end ActixPura.Polling
