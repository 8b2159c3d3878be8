import ActixPura.QueueMap

/-!
# Grouping a list by a key

`collect f l` pushes every element of `l` to the queue of its key. Its queues are the elements of
`l` with one key, in the sequence of the list, and there is one for each key that occurs. A sum over
the list is the sum of the sums over its groups.
-/

namespace ActixPura.QueueMap

variable {κ α M : Type*} [LinearOrder κ]

def collect (f : α → κ) (l : List α) : QueueMap κ α :=
  l.foldl (fun m x => m.pushBack (f x) x) ∅

theorem collect_concat (f : α → κ) (l : List α) (x : α) :
    collect f (l ++ [x]) = (collect f l).pushBack (f x) x := by
  rw [collect, List.foldl_append]
  rfl

theorem getElem?_collect (f : α → κ) (l : List α) (k : κ) :
    (collect f l)[k]? = if k ∈ l.map f then some (l.filter fun x => f x = k) else none := by
  induction l using List.reverseRecOn with
  | nil => simp [collect]
  | append_singleton l x ih =>
      rw [collect_concat, getElem?_pushBack, List.map_append, List.filter_append]
      by_cases hk : f x = k
      · subst k
        rw [if_pos rfl, if_pos (by simp), ih]
        split_ifs with hmem
        · simp
        · have hnone : l.filter (fun y => f y = f x) = [] := by
            refine List.filter_eq_nil_iff.mpr fun y hy hyx => hmem ?_
            exact List.mem_map.mpr ⟨y, hy, by simpa using hyx⟩
          simp [hnone]
      · rw [if_neg hk, ih]
        simp [hk, Ne.symm hk]

/-- The groups of a list are those of its distinct keys. -/
theorem toList_collect_perm (f : α → κ) (l : List α) : (collect f l).toList.Perm
    ((l.map f).dedup.map fun k => (k, l.filter fun x => f x = k)) := by
  have hkeys : (collect f l).toList.Nodup :=
    (pairwise_toList _).imp fun hlt heq => absurd (congrArg Prod.fst heq) hlt.ne
  have hgroups : ((l.map f).dedup.map fun k => (k, l.filter fun x => f x = k)).Nodup :=
    (List.nodup_dedup _).map fun _ _ heq => congrArg Prod.fst heq
  refine (List.perm_ext_iff_of_nodup hkeys hgroups).mpr ?_
  rintro ⟨k, q⟩
  rw [mem_toList, getElem?_collect]
  simp only [List.mem_map, List.mem_dedup, Prod.mk.injEq]
  split_ifs with hk
  · constructor
    · intro hq
      exact ⟨k, hk, rfl, Option.some.inj hq⟩
    · rintro ⟨k', -, rfl, rfl⟩
      rfl
  · refine iff_of_false (by simp) ?_
    rintro ⟨k', hk', rfl, -⟩
    exact hk hk'

section Sums

variable [AddCommMonoid M]

/-- A sum over a list, group by group. The keys may be more than those that occur. -/
theorem sum_groups (f : α → κ) (g : α → M) {keys : List κ} (hkeys : keys.Nodup) {l : List α}
    (hl : ∀ x ∈ l, f x ∈ keys) :
    (keys.map fun k => ((l.filter fun x => f x = k).map g).sum).sum = (l.map g).sum := by
  induction l with
  | nil => simp
  | cons x l ih =>
      have hsplit : ∀ k, (((x :: l).filter fun y => f y = k).map g).sum =
          (if f x = k then g x else 0) + ((l.filter fun y => f y = k).map g).sum := by
        intro k
        rw [List.filter_cons]
        by_cases hk : f x = k <;> simp [hk]
      have hone : (keys.map fun k => if f x = k then g x else 0).sum = g x := by
        have hmem := hl x List.mem_cons_self
        rw [List.sum_map_eq_nsmul_single (f x) _ fun k hk _ => if_neg (Ne.symm hk),
          List.count_eq_one_of_mem hkeys hmem, one_nsmul, if_pos rfl]
      simp only [hsplit]
      rw [List.sum_map_add, hone, ih fun y hy => hl y (List.mem_cons_of_mem _ hy), List.map_cons,
        List.sum_cons]

end Sums

end ActixPura.QueueMap
