import ActixPura.ClusterMessages

/-!
# Vector clocks

The clock of `sync/mod.rs` is a finite map of counters in which an absent node stands for 0. `get`
reads it as a function on all nodes, and the order of clocks is the pointwise order of these
functions: `compare` decides it with two loops over the two maps, and `merge` is its join.
-/

namespace ActixPura

open Std (ExtTreeMap)

inductive VectorClockRelation
  | greater
  | less
  | concurrent
  | equal
  deriving DecidableEq, Repr

/-- The answer for `self_gt` and `other_gt`. -/
def VectorClockRelation.ofFlags : Bool → Bool → VectorClockRelation
  | false, false => .equal
  | true, false => .greater
  | false, true => .less
  | true, true => .concurrent

structure VectorClock where
  counters : ExtTreeMap NodeId ℕ compare

namespace VectorClock

def new : VectorClock := ⟨∅⟩

def get (c : VectorClock) (n : NodeId) : ℕ := c.counters[n]?.getD 0

def set (c : VectorClock) (n : NodeId) (value : ℕ) : VectorClock := ⟨c.counters.insert n value⟩

/-- `entry(n).or_insert(0)` followed by a write. -/
def modifyEntry (c : VectorClock) (n : NodeId) (f : ℕ → ℕ) : VectorClock :=
  ⟨c.counters.insert n (f (c.counters[n]?.getD 0))⟩

def merge (a b : VectorClock) : VectorClock :=
  b.counters.toList.foldl (fun result e => result.modifyEntry e.1 fun v => max v e.2) a

/-- One round of the first loop, on `self_gt` and `other_gt`. -/
def compareEntry (b : VectorClock) (flags : Bool × Bool) (e : NodeId × ℕ) : Bool × Bool :=
  if b.get e.1 < e.2 then (true, flags.2)
  else if e.2 < b.get e.1 then (flags.1, true)
  else flags

/-- One round of the second loop, on `other_gt`. -/
def compareMissing (a : VectorClock) (otherGt : Bool) (e : NodeId × ℕ) : Bool :=
  if !a.counters.contains e.1 && decide (0 < e.2) then true else otherGt

protected def compare (a b : VectorClock) : VectorClockRelation :=
  let flags := a.counters.toList.foldl b.compareEntry (false, false)
  .ofFlags flags.1 (b.counters.toList.foldl a.compareMissing flags.2)

/-! ## Reading the map as a function -/

theorem get_of_mem {c : VectorClock} {e : NodeId × ℕ} (h : e ∈ c.counters.toList) :
    c.get e.1 = e.2 := by
  have hlookup : c.counters[e.1]? = some e.2 := ExtTreeMap.mem_toList_iff_getElem?_eq_some.mp h
  rw [get, hlookup, Option.getD_some]

theorem mem_of_contains {c : VectorClock} {n : NodeId} (h : c.counters.contains n = true) :
    (n, c.get n) ∈ c.counters.toList := by
  obtain ⟨v, hv⟩ := Option.isSome_iff_exists.mp
    ((ExtTreeMap.isSome_getElem?_eq_contains (t := c.counters) (a := n)).trans h)
  rw [ExtTreeMap.mem_toList_iff_getElem?_eq_some, get, hv, Option.getD_some]

theorem get_of_not_contains {c : VectorClock} {n : NodeId} (h : c.counters.contains n = false) :
    c.get n = 0 := by
  rw [get, ExtTreeMap.getElem?_eq_none_of_contains_eq_false h, Option.getD_none]

@[simp] theorem get_modifyEntry (c : VectorClock) (n m : NodeId) (f : ℕ → ℕ) :
    (c.modifyEntry n f).get m = if n = m then f (c.get n) else c.get m := by
  simp only [get, modifyEntry, ExtTreeMap.getElem?_insert, Std.LawfulEqOrd.compare_eq_iff_eq]
  split_ifs <;> rfl

theorem get_foldl_merge_le_iff (entries : List (NodeId × ℕ)) (a : VectorClock) (n : NodeId)
    (k : ℕ) :
    (entries.foldl (fun result e => result.modifyEntry e.1 fun v => max v e.2) a).get n ≤ k ↔
      a.get n ≤ k ∧ ∀ e ∈ entries, e.1 = n → e.2 ≤ k := by
  induction entries generalizing a with
  | nil => simp
  | cons e es ih =>
      rw [List.foldl_cons, ih, get_modifyEntry, List.forall_mem_cons]
      by_cases heq : e.1 = n
      · subst n
        simp [and_assoc]
      · simp [heq]

theorem get_le_iff (c : VectorClock) (n : NodeId) (k : ℕ) :
    c.get n ≤ k ↔ ∀ e ∈ c.counters.toList, e.1 = n → e.2 ≤ k := by
  constructor
  · rintro h e he rfl
    rwa [← get_of_mem he]
  · intro h
    cases hc : c.counters.contains n with
    | true => exact h _ (mem_of_contains hc) rfl
    | false => rw [get_of_not_contains hc]; exact Nat.zero_le k

theorem get_merge (a b : VectorClock) (n : NodeId) :
    (a.merge b).get n = max (a.get n) (b.get n) := by
  refine eq_of_forall_ge_iff fun k => ?_
  rw [merge, get_foldl_merge_le_iff, max_le_iff, get_le_iff b]

/-! ## The flags of `compare` -/

theorem foldl_compareEntry (b : VectorClock) (entries : List (NodeId × ℕ)) (flags : Bool × Bool) :
    entries.foldl b.compareEntry flags =
      (flags.1 || entries.any (fun e => decide (b.get e.1 < e.2)),
        flags.2 || entries.any (fun e => decide (e.2 < b.get e.1))) := by
  induction entries generalizing flags with
  | nil => simp
  | cons e es ih =>
      rw [List.foldl_cons, ih, compareEntry]
      rcases lt_trichotomy (b.get e.1) e.2 with hlt | heq | hgt
      · simp [hlt, not_lt.mpr hlt.le]
      · simp [heq]
      · simp [hgt, not_lt.mpr hgt.le]

theorem foldl_compareMissing (a : VectorClock) (entries : List (NodeId × ℕ)) (otherGt : Bool) :
    entries.foldl a.compareMissing otherGt =
      (otherGt || entries.any (fun e => !a.counters.contains e.1 && decide (0 < e.2))) := by
  induction entries generalizing otherGt with
  | nil => simp
  | cons e es ih =>
      rw [List.foldl_cons, ih, compareMissing]
      cases h : (!a.counters.contains e.1 && decide (0 < e.2)) <;> simp [h]

theorem selfGt_iff (a b : VectorClock) :
    (a.counters.toList.foldl b.compareEntry (false, false)).1 = true ↔ ¬ a.get ≤ b.get := by
  rw [foldl_compareEntry, Pi.le_def, not_forall]
  simp only [Bool.false_or, List.any_eq_true, decide_eq_true_eq, not_le]
  constructor
  · rintro ⟨e, he, hlt⟩
    exact ⟨e.1, by rwa [get_of_mem he]⟩
  · rintro ⟨n, hlt⟩
    cases hc : a.counters.contains n with
    | true => exact ⟨_, mem_of_contains hc, hlt⟩
    | false => simp [get_of_not_contains hc] at hlt

/-- The first loop sees the nodes of `a`, the second one the nodes that only `b` has. -/
theorem otherGt_iff (a b : VectorClock) :
    b.counters.toList.foldl a.compareMissing
      (a.counters.toList.foldl b.compareEntry (false, false)).2 = true ↔ ¬ b.get ≤ a.get := by
  rw [foldl_compareMissing, foldl_compareEntry, Pi.le_def, not_forall]
  simp only [Bool.false_or, Bool.or_eq_true, List.any_eq_true, decide_eq_true_eq, not_le,
    Bool.and_eq_true, Bool.not_eq_true']
  constructor
  · rintro (⟨e, he, hlt⟩ | ⟨e, he, habsent, hpos⟩)
    · exact ⟨e.1, by rwa [get_of_mem he]⟩
    · exact ⟨e.1, by rwa [get_of_mem he, get_of_not_contains habsent]⟩
  · rintro ⟨n, hlt⟩
    cases hc : a.counters.contains n with
    | true => exact Or.inl ⟨_, mem_of_contains hc, hlt⟩
    | false =>
        have hpos : 0 < b.get n := by omega
        cases hb : b.counters.contains n with
        | true => exact Or.inr ⟨_, mem_of_contains hb, hc, hpos⟩
        | false => simp [get_of_not_contains hb] at hpos

theorem ofFlags_iff {selfGt otherGt : Bool} {le ge : Prop} (hself : selfGt = true ↔ ¬ le)
    (hother : otherGt = true ↔ ¬ ge) :
    (VectorClockRelation.ofFlags selfGt otherGt = .equal ↔ le ∧ ge) ∧
    (VectorClockRelation.ofFlags selfGt otherGt = .less ↔ le ∧ ¬ ge) ∧
    (VectorClockRelation.ofFlags selfGt otherGt = .greater ↔ ¬ le ∧ ge) ∧
    (VectorClockRelation.ofFlags selfGt otherGt = .concurrent ↔ ¬ le ∧ ¬ ge) := by
  rw [← hself, ← hother, ← not_not (a := le), ← not_not (a := ge), ← hself, ← hother]
  cases selfGt <;> cases otherGt <;> simp [VectorClockRelation.ofFlags]

theorem compare_eq_equal_iff (a b : VectorClock) : a.compare b = .equal ↔ a.get = b.get :=
  (ofFlags_iff (selfGt_iff a b) (otherGt_iff a b)).1.trans le_antisymm_iff.symm

theorem compare_eq_less_iff (a b : VectorClock) : a.compare b = .less ↔ a.get < b.get :=
  (ofFlags_iff (selfGt_iff a b) (otherGt_iff a b)).2.1.trans lt_iff_le_not_ge.symm

theorem compare_eq_greater_iff (a b : VectorClock) : a.compare b = .greater ↔ b.get < a.get :=
  (ofFlags_iff (selfGt_iff a b) (otherGt_iff a b)).2.2.1.trans
    (and_comm.trans lt_iff_le_not_ge.symm)

theorem compare_eq_concurrent_iff (a b : VectorClock) :
    a.compare b = .concurrent ↔ ¬ a.get ≤ b.get ∧ ¬ b.get ≤ a.get :=
  (ofFlags_iff (selfGt_iff a b) (otherGt_iff a b)).2.2.2

theorem get_merge_eq_sup (a b : VectorClock) : (a.merge b).get = a.get ⊔ b.get :=
  funext (get_merge a b)

/-- `compare` answers `Equal` or `Less`. -/
def AtMost (a b : VectorClock) : Prop := a.compare b = .equal ∨ a.compare b = .less

theorem atMost_iff (a b : VectorClock) : a.AtMost b ↔ a.get ≤ b.get := by
  rw [AtMost, compare_eq_equal_iff, compare_eq_less_iff, le_iff_eq_or_lt]

example : (new.set 1 1).compare (new.set 2 1) = .concurrent := by decide +kernel

/-- `compare` decides the pointwise order of the counters, and `merge` is the least upper bound of
two clocks in this order. -/
theorem compare_merge_spec (a b c : VectorClock) :
    (a.compare b = .equal ↔ ∀ n, a.get n = b.get n) ∧
    (a.compare b = .less ↔ (∀ n, a.get n ≤ b.get n) ∧ ∃ n, a.get n ≠ b.get n) ∧
    (a.compare b = .greater ↔ (∀ n, b.get n ≤ a.get n) ∧ ∃ n, a.get n ≠ b.get n) ∧
    (a.compare b = .concurrent ↔ (¬ ∀ n, a.get n ≤ b.get n) ∧ ¬ ∀ n, b.get n ≤ a.get n) ∧
    a.AtMost (a.merge b) ∧ b.AtMost (a.merge b) ∧
    (a.AtMost c ∧ b.AtMost c → (a.merge b).AtMost c) ∧
    (a.merge b).compare (b.merge a) = .equal ∧
    ((a.merge b).merge c).compare (a.merge (b.merge c)) = .equal ∧
    (a.merge a).compare a = .equal := by
  have hne : (∃ n, a.get n ≠ b.get n) ↔ a.get ≠ b.get := Function.ne_iff.symm
  refine ⟨?_, ?_, ?_, ?_, ?_, ?_, ?_, ?_, ?_, ?_⟩
  · rw [compare_eq_equal_iff, funext_iff]
  · rw [compare_eq_less_iff, hne, lt_iff_le_and_ne, Pi.le_def]
  · rw [compare_eq_greater_iff, hne, lt_iff_le_and_ne, Pi.le_def, ne_comm]
  · rw [compare_eq_concurrent_iff, Pi.le_def, Pi.le_def]
  · rw [atMost_iff, get_merge_eq_sup]
    exact le_sup_left
  · rw [atMost_iff, get_merge_eq_sup]
    exact le_sup_right
  · rw [atMost_iff, atMost_iff, atMost_iff, get_merge_eq_sup]
    exact fun h => sup_le h.1 h.2
  · rw [compare_eq_equal_iff, get_merge_eq_sup, get_merge_eq_sup, sup_comm]
  · simp only [compare_eq_equal_iff, get_merge_eq_sup, sup_assoc]
  · rw [compare_eq_equal_iff, get_merge_eq_sup, sup_idem]

end VectorClock

end ActixPura
