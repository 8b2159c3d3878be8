import Mathlib

/-!
# Lists up to order and losses

`PermUpTo lost xs ys` says that `xs` has the elements of `ys`, each as often and in any order, less
some that are all `lost`. A collection that is taken apart and put together again is related in this
way to what it was: what may be missing is known by a property of the element, and nothing is there
that was not there before. The relation is transitive, and it is kept by appending, by filtering and
by mapping.
-/

namespace ActixPura

variable {α β : Type*} {lost lost' : α → Prop} {xs ys zs : List α}

def PermUpTo (lost : α → Prop) (xs ys : List α) : Prop :=
  ∃ missing, (∀ x ∈ missing, lost x) ∧ (xs ++ missing).Perm ys

namespace PermUpTo

theorem of_perm (h : xs.Perm ys) : PermUpTo lost xs ys :=
  ⟨[], by simp, by simpa using h⟩

theorem refl (xs : List α) : PermUpTo lost xs xs := of_perm (List.Perm.refl xs)

theorem lose {x : α} (h : lost x) : PermUpTo lost [] [x] :=
  ⟨[x], by simpa using h, List.Perm.refl _⟩

theorem mono (hlost : ∀ x, lost x → lost' x) (h : PermUpTo lost xs ys) : PermUpTo lost' xs ys := by
  obtain ⟨missing, hmissing, hperm⟩ := h
  exact ⟨missing, fun x hx => hlost x (hmissing x hx), hperm⟩

theorem trans (h : PermUpTo lost xs ys) (h' : PermUpTo lost ys zs) : PermUpTo lost xs zs := by
  obtain ⟨missing, hmissing, hperm⟩ := h
  obtain ⟨missing', hmissing', hperm'⟩ := h'
  refine ⟨missing ++ missing', List.forall_mem_append.mpr ⟨hmissing, hmissing'⟩, ?_⟩
  rw [← List.append_assoc]
  exact (hperm.append_right missing').trans hperm'

theorem append {xs' ys' : List α} (h : PermUpTo lost xs ys) (h' : PermUpTo lost xs' ys') :
    PermUpTo lost (xs ++ xs') (ys ++ ys') := by
  obtain ⟨missing, hmissing, hperm⟩ := h
  obtain ⟨missing', hmissing', hperm'⟩ := h'
  refine ⟨missing ++ missing', List.forall_mem_append.mpr ⟨hmissing, hmissing'⟩, ?_⟩
  have hswap : (xs ++ xs' ++ (missing ++ missing')).Perm
      ((xs ++ missing) ++ (xs' ++ missing')) := by
    simp only [List.append_assoc]
    refine List.Perm.append_left xs ?_
    rw [← List.append_assoc, ← List.append_assoc]
    exact List.perm_append_comm.append_right missing'
  exact hswap.trans (hperm.append hperm')

theorem filter (p : α → Bool) (h : PermUpTo lost xs ys) :
    PermUpTo lost (xs.filter p) (ys.filter p) := by
  obtain ⟨missing, hmissing, hperm⟩ := h
  refine ⟨missing.filter p, fun x hx => hmissing x (List.mem_of_mem_filter hx), ?_⟩
  simpa only [List.filter_append] using hperm.filter p

theorem map {lost' : β → Prop} (f : α → β) (hlost : ∀ x, lost x → lost' (f x))
    (h : PermUpTo lost xs ys) : PermUpTo lost' (xs.map f) (ys.map f) := by
  obtain ⟨missing, hmissing, hperm⟩ := h
  refine ⟨missing.map f, ?_, by simpa only [List.map_append] using hperm.map f⟩
  intro y hy
  obtain ⟨x, hx, rfl⟩ := List.mem_map.mp hy
  exact hlost x (hmissing x hx)

theorem subset (h : PermUpTo lost xs ys) {x : α} (hx : x ∈ xs) : x ∈ ys := by
  obtain ⟨missing, -, hperm⟩ := h
  exact hperm.subset (List.mem_append_left missing hx)

theorem nodup (h : PermUpTo lost xs ys) (hys : ys.Nodup) : xs.Nodup := by
  obtain ⟨missing, -, hperm⟩ := h
  exact (hperm.nodup_iff.mpr hys).of_append_left

/-- What cannot be lost is still there. -/
theorem mem (h : PermUpTo lost xs ys) {x : α} (hx : x ∈ ys) (hlost : ¬ lost x) : x ∈ xs := by
  obtain ⟨missing, hmissing, hperm⟩ := h
  rcases List.mem_append.mp (hperm.symm.subset hx) with hxs | hx
  · exact hxs
  · exact absurd (hmissing x hx) hlost

end PermUpTo

end ActixPura
