import Mathlib

/-!
# Vectors with removal by swapping

`swapRemove` puts the last entry in the place of the removed one, and `removeWhere` is the loop that
uses it to remove every entry with a property: the index is advanced only when the entry there
stays. Both change the order, so what is known about them is known up to permutation.
-/

namespace ActixPura

section SwapRemove

variable {α : Type*}

def swapRemove (xs : List α) (idx : ℕ) : List α :=
  match xs.getLast? with
  | none => []
  | some last => (xs.set idx last).dropLast

/-- The entry at the index and the last entry change places. -/
def swapWithLast (xs : List α) (idx : ℕ) : List α :=
  match xs[idx]?, xs.getLast? with
  | some x, some last => (xs.set idx last).set (xs.length - 1) x
  | _, _ => xs

/-- The loop of `removeWhere` from an index on: what is left and what was removed. -/
def removeWhereFrom (p : α → Bool) : ℕ → ℕ → List α → List α × List α
  | 0, _, xs => (xs, [])
  | fuel + 1, idx, xs =>
    match xs[idx]? with
    | none => (xs, [])
    | some x =>
      if p x then
        let rest := removeWhereFrom p fuel idx (swapRemove xs idx)
        (rest.1, x :: rest.2)
      else removeWhereFrom p fuel (idx + 1) xs

def removeWhere (p : α → Bool) (xs : List α) : List α × List α :=
  removeWhereFrom p xs.length 0 xs

theorem swapRemove_perm {xs : List α} {idx : ℕ} (h : idx < xs.length) :
    (swapRemove xs idx).Perm (xs.eraseIdx idx) := by
  rcases List.eq_nil_or_concat xs with rfl | ⟨init, last, rfl⟩
  · simp at h
  · rw [List.concat_eq_append] at h ⊢
    simp only [swapRemove, List.getLast?_append, List.getLast?_singleton, Option.some_or]
    rw [List.length_append, List.length_singleton] at h
    by_cases hidx : idx < init.length
    · rw [List.set_append_left _ _ hidx, List.dropLast_concat,
        List.eraseIdx_append_of_lt_length hidx]
      refine (List.set_perm_cons_eraseIdx hidx last).trans ?_
      exact (List.perm_append_singleton last _).symm
    · obtain rfl : idx = init.length := by omega
      rw [List.set_append_right _ _ le_rfl, List.eraseIdx_append_of_length_le le_rfl]
      simp

theorem swapRemove_subperm (xs : List α) (idx : ℕ) :
    List.Subperm (swapRemove xs idx) (xs.eraseIdx idx) := by
  by_cases hidx : idx < xs.length
  · exact (swapRemove_perm hidx).subperm
  · rw [not_lt] at hidx
    rw [List.eraseIdx_of_length_le hidx]
    unfold swapRemove
    split
    · exact List.nil_subperm
    · rw [List.set_eq_of_length_le hidx]
      exact (List.dropLast_sublist xs).subperm

theorem cons_swapRemove_perm {xs : List α} {idx : ℕ} {x : α} (h : xs[idx]? = some x) :
    (x :: swapRemove xs idx).Perm xs := by
  obtain ⟨hlt, rfl⟩ := List.getElem?_eq_some_iff.mp h
  exact ((swapRemove_perm hlt).cons _).trans (List.getElem_cons_eraseIdx_perm hlt)

theorem take_swapRemove {xs : List α} {idx : ℕ} (h : idx < xs.length) :
    (swapRemove xs idx).take idx = xs.take idx := by
  rcases List.eq_nil_or_concat xs with rfl | ⟨init, last, rfl⟩
  · simp at h
  · rw [List.concat_eq_append] at h ⊢
    simp only [swapRemove, List.getLast?_append, List.getLast?_singleton, Option.some_or]
    rw [List.length_append, List.length_singleton] at h
    rw [List.dropLast_eq_take, List.take_take, List.length_set, List.length_append,
      List.length_singleton, Nat.add_sub_cancel, min_eq_left (by omega), List.take_set_of_le le_rfl]

theorem swapWithLast_perm (xs : List α) (idx : ℕ) : (swapWithLast xs idx).Perm xs := by
  unfold swapWithLast
  split
  case h_1 x last hx hlast =>
    obtain ⟨hlt, rfl⟩ := List.getElem?_eq_some_iff.mp hx
    rw [List.getLast?_eq_getElem?] at hlast
    obtain ⟨hlt', rfl⟩ := List.getElem?_eq_some_iff.mp hlast
    exact List.set_set_perm hlt hlt'
  case h_2 => exact List.Perm.refl xs

/-- The entries before the index have been looked at, and the fuel is enough for those after it. -/
theorem removeWhereFrom_spec (p : α → Bool) {fuel idx : ℕ} {xs : List α}
    (hfuel : xs.length ≤ idx + fuel) (hseen : ∀ x ∈ xs.take idx, p x = false) :
    ((removeWhereFrom p fuel idx xs).1 ++ (removeWhereFrom p fuel idx xs).2).Perm xs ∧
      (∀ x ∈ (removeWhereFrom p fuel idx xs).1, p x = false) ∧
        ∀ x ∈ (removeWhereFrom p fuel idx xs).2, p x = true := by
  induction fuel generalizing idx xs with
  | zero =>
      rw [Nat.add_zero] at hfuel
      rw [List.take_of_length_le hfuel] at hseen
      simpa [removeWhereFrom] using hseen
  | succ fuel ih =>
      unfold removeWhereFrom
      cases hx : xs[idx]? with
      | none =>
          rw [List.getElem?_eq_none_iff] at hx
          rw [List.take_of_length_le hx] at hseen
          simpa using hseen
      | some x =>
          obtain ⟨hlt, rfl⟩ := List.getElem?_eq_some_iff.mp hx
          by_cases hp : p xs[idx]
          · have hlen := (cons_swapRemove_perm hx).length_eq
            rw [List.length_cons] at hlen
            rw [← take_swapRemove hlt] at hseen
            obtain ⟨hperm, hleft, hremoved⟩ := ih (by omega) hseen
            simp only [hp, if_true]
            refine ⟨?_, hleft, ?_⟩
            · exact (List.perm_middle.trans (hperm.cons _)).trans (cons_swapRemove_perm hx)
            · intro y hy
              rcases List.mem_cons.mp hy with rfl | hy
              · exact hp
              · exact hremoved y hy
          · have hseen' : ∀ y ∈ xs.take (idx + 1), p y = false := by
              intro y hy
              rw [List.take_add_one, hx, List.mem_append] at hy
              rcases hy with hy | hy
              · exact hseen y hy
              · obtain rfl : y = xs[idx] := by simpa using hy
                simpa using hp
            simpa [hp] using ih (by omega) hseen'

theorem removeWhere_perm (p : α → Bool) (xs : List α) :
    ((removeWhere p xs).1 ++ (removeWhere p xs).2).Perm xs :=
  (removeWhereFrom_spec p (by omega) (by simp)).1

theorem not_of_mem_removeWhere {p : α → Bool} {xs : List α} {x : α}
    (h : x ∈ (removeWhere p xs).1) : p x = false :=
  (removeWhereFrom_spec p (by omega) (by simp)).2.1 x h

theorem of_mem_removed {p : α → Bool} {xs : List α} {x : α}
    (h : x ∈ (removeWhere p xs).2) : p x = true :=
  (removeWhereFrom_spec p (by omega) (by simp)).2.2 x h

theorem mem_of_mem_removed {p : α → Bool} {xs : List α} {x : α}
    (h : x ∈ (removeWhere p xs).2) : x ∈ xs :=
  (removeWhere_perm p xs).mem_iff.mp (List.mem_append_right _ h)

end SwapRemove

end ActixPura
