import Mathlib

/-!
# Greedy orders

The elements of a list are taken one by one. The cost of taking an element depends on how many were
taken before, and each time an element of least cost among those that are left is taken, the
earliest one in the list if there are several. An element that is not taken can be removed from the
list without a change to what is taken.
-/

namespace ActixPura.GreedyOrder

variable {α β : Type*} [LinearOrder β]

/-! ## Least elements -/

theorem argmin_filter_eq_some {f : α → β} {l : List α} {p : α → Bool} {a : α}
    (ha : l.argmin f = some a) (hp : p a = true) : (l.filter p).argmin f = some a := by
  induction l with
  | nil => simp at ha
  | cons b l ih =>
      rw [List.argmin_cons] at ha
      cases hl : l.argmin f with
      | none =>
          rw [List.argmin_eq_none.mp hl] at ha ⊢
          obtain rfl : b = a := by simpa using ha
          simp [hp]
      | some c =>
          have hle : ∀ c' ∈ l, f c ≤ f c' := fun c' hc' => List.le_of_mem_argmin hc' hl
          simp only [hl] at ha
          by_cases hlt : f c < f b
          · simp only [hlt, if_true, Option.some.injEq] at ha
            subst ha
            have hrest := ih hl
            by_cases hb : p b = true
            · rw [List.filter_cons_of_pos hb, List.argmin_cons, hrest]
              simp [hlt]
            · rw [List.filter_cons_of_neg hb, hrest]
          · simp only [hlt, if_false, Option.some.injEq] at ha
            subst ha
            rw [List.filter_cons_of_pos hp, List.argmin_cons]
            cases hrest : (l.filter p).argmin f with
            | none => rfl
            | some c' =>
                have hc' := List.mem_of_mem_filter (List.argmin_mem hrest)
                have hle' := hle c' hc'
                simp only [not_lt.mpr ((not_lt.mp hlt).trans hle'), if_false]

/-- The first element is the least one if none is smaller. -/
theorem argmin_eq_head? {f : α → β} {l : List α} (h : ∀ a ∈ l, ∀ b ∈ l, f a ≤ f b) :
    l.argmin f = l.head? := by
  cases l with
  | nil => rfl
  | cons a l =>
      rw [List.argmin_cons, List.head?_cons]
      cases hl : l.argmin f with
      | none => rfl
      | some c =>
          have hle := h a List.mem_cons_self c (List.mem_cons_of_mem _ (List.argmin_mem hl))
          simp only [not_lt.mpr hle, if_false]

/-! ## The order -/

/-- Each element is one of least cost among those of the list that are not taken before it. -/
def Cheapest (cost : ℕ → α → β) (l taken : List α) : Prop :=
  ∀ before a after, taken = before ++ a :: after →
    ∀ b ∈ l, b ∉ before → cost before.length a ≤ cost before.length b

variable {cost : ℕ → α → β} {l : List α}

theorem cheapest_concat {taken : List α} {a : α} (h : Cheapest cost l taken)
    (ha : ∀ b ∈ l, b ∉ taken → cost taken.length a ≤ cost taken.length b) :
    Cheapest cost l (taken ++ [a]) := by
  intro before b after heq c hc hnew
  rcases List.append_eq_append_iff.mp heq with ⟨more, hbefore, hsplit⟩ | ⟨more, htaken, hsplit⟩
  · cases more with
    | nil =>
        obtain ⟨rfl, -⟩ := List.cons.inj hsplit
        rw [List.append_nil] at hbefore
        rw [hbefore] at hnew ⊢
        exact ha c hc hnew
    | cons d more => simp at hsplit
  · cases more with
    | nil =>
        obtain ⟨rfl, -⟩ := List.cons.inj hsplit
        rw [List.append_nil] at htaken
        rw [← htaken] at hnew ⊢
        exact ha c hc hnew
    | cons d more =>
        obtain ⟨rfl, -⟩ := List.cons.inj hsplit
        exact h before b more htaken c hc hnew

variable [DecidableEq α]

/-- The elements of the list that are not taken. -/
def left (l taken : List α) : List α := l.filter fun a => decide (a ∉ taken)

theorem mem_left {l taken : List α} {a : α} : a ∈ left l taken ↔ a ∈ l ∧ a ∉ taken := by
  simp [left]

/-- The first elements that are taken. -/
def order (cost : ℕ → α → β) (l : List α) : ℕ → List α
  | 0 => []
  | i + 1 => order cost l i ++ ((left l (order cost l i)).argmin (cost i)).toList

theorem order_succ_of_argmin {i : ℕ} {a : α}
    (h : (left l (order cost l i)).argmin (cost i) = some a) :
    order cost l (i + 1) = order cost l i ++ [a] := by
  rw [order, h]
  rfl

theorem order_subset (i : ℕ) : order cost l i ⊆ l := by
  induction i with
  | zero => exact List.nil_subset _
  | succ i ih =>
      refine List.append_subset.mpr ⟨ih, fun a ha => ?_⟩
      exact (mem_left.mp (List.argmin_mem (Option.mem_toList.mp ha))).1

theorem order_nodup (i : ℕ) : (order cost l i).Nodup := by
  induction i with
  | zero => exact List.nodup_nil
  | succ i ih =>
      cases h : (left l (order cost l i)).argmin (cost i) with
      | none => rwa [order, h, Option.toList_none, List.append_nil]
      | some a =>
          rw [order_succ_of_argmin h]
          exact List.nodup_append'.mpr ⟨ih, List.nodup_singleton a,
            List.disjoint_singleton.mpr (mem_left.mp (List.argmin_mem h)).2⟩

/-- While there are elements left, one is taken each time. -/
theorem exists_argmin {i : ℕ} (h : (order cost l i).length < l.toFinset.card) :
    ∃ a, (left l (order cost l i)).argmin (cost i) = some a := by
  rw [← Option.ne_none_iff_exists']
  intro hnone
  have hleft := List.argmin_eq_none.mp hnone
  have hsubset : l.toFinset ⊆ (order cost l i).toFinset := by
    intro a ha
    by_contra htaken
    rw [List.mem_toFinset] at ha htaken
    exact List.ne_nil_of_mem (mem_left.mpr ⟨ha, htaken⟩) hleft
  have hcard := (Finset.card_le_card hsubset).trans (List.toFinset_card_le _)
  omega

theorem order_length {i : ℕ} (h : i ≤ l.toFinset.card) : (order cost l i).length = i := by
  induction i with
  | zero => rfl
  | succ i ih =>
      have hlength := ih (Nat.le_of_succ_le h)
      obtain ⟨a, ha⟩ := exists_argmin (hlength.trans_lt h)
      rw [order_succ_of_argmin ha, List.length_append, hlength, List.length_singleton]

theorem order_cheapest {i : ℕ} (h : i ≤ l.toFinset.card) : Cheapest cost l (order cost l i) := by
  induction i with
  | zero => exact fun before a after heq => absurd heq (by simp [order])
  | succ i ih =>
      have hlength : (order cost l i).length = i := order_length (Nat.le_of_succ_le h)
      obtain ⟨a, ha⟩ := exists_argmin (hlength.trans_lt h)
      rw [order_succ_of_argmin ha]
      refine cheapest_concat (ih (Nat.le_of_succ_le h)) fun b hb hnew => ?_
      rw [hlength]
      exact List.le_of_mem_argmin (mem_left.mpr ⟨hb, hnew⟩) ha

/-- An element that is not taken is not missed. -/
theorem order_erase {removed : α} (hnodup : l.Nodup) {i : ℕ} (hi : i ≤ l.toFinset.card)
    (h : removed ∉ order cost l i) : order cost (l.erase removed) i = order cost l i := by
  induction i with
  | zero => rfl
  | succ i ih =>
      have hlength : (order cost l i).length = i := order_length (Nat.le_of_succ_le hi)
      obtain ⟨a, ha⟩ := exists_argmin (hlength.trans_lt hi)
      rw [order_succ_of_argmin ha, List.mem_append, List.mem_singleton, not_or] at h
      have hrest := ih (Nat.le_of_succ_le hi) h.1
      have hleft : left (l.erase removed) (order cost l i) =
          (left l (order cost l i)).filter fun b => decide (b ≠ removed) := by
        rw [hnodup.erase_eq_filter, left, left, List.filter_filter, List.filter_filter]
        refine List.filter_congr fun b _ => ?_
        simp [Bool.and_comm, bne, beq_eq_decide]
      have ha' : (left (l.erase removed) (order cost l i)).argmin (cost i) = some a := by
        rw [hleft]
        exact argmin_filter_eq_some ha (decide_eq_true (Ne.symm h.2))
      rw [order_succ_of_argmin ha, order, hrest, ha']
      rfl

end ActixPura.GreedyOrder
