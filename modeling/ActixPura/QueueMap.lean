import Mathlib

/-!
# Ordered maps of queues

A `QueueMap` assigns a queue to finitely many keys of a linear order, like a `BTreeMap` whose
values are vectors. `pushBack` appends to the queue of a key and creates it when absent;
`retain` filters the queue of a key and drops the key with its last element. `Holds m k x`
states that `x` waits in the queue of `k`, and the laws below describe both operations, the
extreme keys and the key-ordered traversals in terms of it.
-/

namespace ActixPura

open Std (ExtTreeMap)

abbrev QueueMap (κ α : Type*) [LinearOrder κ] :=
  ExtTreeMap κ (List α) (compare : κ → κ → Ordering)

namespace QueueMap

variable {κ α : Type*} [LinearOrder κ]

def pushBack (m : QueueMap κ α) (k : κ) (x : α) : QueueMap κ α :=
  m.alter k (fun q => some (q.getD [] ++ [x]))

def retain (m : QueueMap κ α) (k : κ) (p : α → Bool) : QueueMap κ α :=
  match m[k]? with
  | none => m
  | some q => if (q.filter p).isEmpty then m.erase k else m.insert k (q.filter p)

def firstKey (m : QueueMap κ α) : Option κ := m.toList.head?.map Prod.fst

def lastKey (m : QueueMap κ α) : Option κ := m.toList.getLast?.map Prod.fst

/-- The queues from `k` on, in increasing key order, joined. -/
def atLeast (m : QueueMap κ α) (k : κ) : List α :=
  (m.toList.filter (fun e => decide (k ≤ e.1))).flatMap Prod.snd

/-- The queues up to `k`, in increasing key order, joined. -/
def atMost (m : QueueMap κ α) (k : κ) : List α :=
  (m.toList.filter (fun e => decide (e.1 ≤ k))).flatMap Prod.snd

def entries (m : QueueMap κ α) : List α := m.toList.flatMap Prod.snd

def Holds (m : QueueMap κ α) (k : κ) (x : α) : Prop := ∃ q, m[k]? = some q ∧ x ∈ q

def NoEmpty (m : QueueMap κ α) : Prop := ∀ (k : κ) (q : List α), m[k]? = some q → q ≠ []

theorem getElem?_pushBack (m : QueueMap κ α) (k k' : κ) (x : α) :
    (m.pushBack k x)[k']? = if k = k' then some (m[k]?.getD [] ++ [x]) else m[k']? := by
  simp [pushBack, ExtTreeMap.getElem?_alter]

theorem getElem?_retain (m : QueueMap κ α) (k k' : κ) (p : α → Bool) :
    (m.retain k p)[k']? =
      if k = k' then (m[k]?.map (List.filter p)).filter (fun q => !q.isEmpty) else m[k']? := by
  unfold retain
  cases hq : m[k]? with
  | none =>
      by_cases hk : k = k'
      · subst k'
        simp [hq]
      · simp [hk]
  | some q =>
      by_cases he : (q.filter p).isEmpty = true
      · simp [he, ExtTreeMap.getElem?_erase, Option.filter_some]
      · simp [he, ExtTreeMap.getElem?_insert, Option.filter_some]

@[simp] theorem holds_empty (k : κ) (x : α) : ¬ Holds (∅ : QueueMap κ α) k x := by
  simp [Holds]

theorem holds_pushBack (m : QueueMap κ α) (k k' : κ) (x y : α) :
    Holds (m.pushBack k x) k' y ↔ Holds m k' y ∨ (k' = k ∧ y = x) := by
  unfold Holds
  rw [getElem?_pushBack]
  by_cases hk : k = k'
  · subst k'
    cases hq : m[k]? <;> simp
  · simp [hk, Ne.symm hk]

theorem holds_retain (m : QueueMap κ α) (k k' : κ) (p : α → Bool) (y : α) :
    Holds (m.retain k p) k' y ↔ Holds m k' y ∧ (k' = k → p y = true) := by
  unfold Holds
  rw [getElem?_retain]
  by_cases hk : k = k'
  · subst k'
    cases hq : m[k]? with
    | none => simp
    | some q =>
        simp only [if_true, Option.map_some, Option.filter_eq_some_iff, Option.some.injEq,
          forall_const]
        constructor
        · rintro ⟨_, ⟨rfl, _⟩, hy⟩
          obtain ⟨hy, hp⟩ := List.mem_filter.mp hy
          exact ⟨⟨q, rfl, hy⟩, hp⟩
        · rintro ⟨⟨_, rfl, hy⟩, hp⟩
          have hmem : y ∈ q.filter p := List.mem_filter.mpr ⟨hy, hp⟩
          exact ⟨_, ⟨rfl, by simpa using ⟨y, hy, hp⟩⟩, hmem⟩
  · simp [hk, Ne.symm hk]

theorem noEmpty_empty : NoEmpty (∅ : QueueMap κ α) := by
  intro k q hq
  simp at hq

theorem noEmpty_pushBack {m : QueueMap κ α} (h : NoEmpty m) (k : κ) (x : α) :
    NoEmpty (m.pushBack k x) := by
  intro k' q hq
  rw [getElem?_pushBack] at hq
  by_cases hk : k = k'
  · rw [if_pos hk, Option.some.injEq] at hq
    simp [← hq]
  · rw [if_neg hk] at hq
    exact h k' q hq

theorem noEmpty_retain {m : QueueMap κ α} (h : NoEmpty m) (k : κ) (p : α → Bool) :
    NoEmpty (m.retain k p) := by
  intro k' q hq
  rw [getElem?_retain] at hq
  by_cases hk : k = k'
  · rw [if_pos hk, Option.filter_eq_some_iff] at hq
    simpa using hq.2
  · rw [if_neg hk] at hq
    exact h k' q hq

section Traversal

variable {m : QueueMap κ α}

theorem pairwise_toList (m : QueueMap κ α) : m.toList.Pairwise (fun a b => a.1 < b.1) :=
  (ExtTreeMap.ordered_keys_toList).imp (fun h => compare_lt_iff_lt.mp h)

theorem mem_toList {k : κ} {q : List α} : (k, q) ∈ m.toList ↔ m[k]? = some q :=
  ExtTreeMap.mem_toList_iff_getElem?_eq_some

theorem firstKey_eq_some {k : κ} (h : m.firstKey = some k) :
    (∃ q, m[k]? = some q) ∧ ∀ k' q', m[k']? = some q' → k ≤ k' := by
  unfold firstKey at h
  cases hl : m.toList with
  | nil => simp [hl] at h
  | cons e es =>
      have hk : e.1 = k := by simpa [hl] using h
      have hsorted := pairwise_toList m
      rw [hl] at hsorted
      refine ⟨⟨e.2, mem_toList.mp (by simp [hl, ← hk])⟩, ?_⟩
      intro k' q' hq'
      have hmem : (k', q') ∈ e :: es := by rw [← hl]; exact mem_toList.mpr hq'
      rcases List.mem_cons.mp hmem with rfl | hmem
      · exact hk.ge
      · exact hk ▸ (List.rel_of_pairwise_cons hsorted hmem).le

theorem firstKey_eq_none : m.firstKey = none ↔ ∀ k : κ, m[k]? = none := by
  unfold firstKey
  rw [Option.map_eq_none_iff, List.head?_eq_none_iff]
  constructor
  · intro h k
    cases hq : m[k]? with
    | none => rfl
    | some q =>
        have hmem := mem_toList.mpr hq
        simp [h] at hmem
  · intro h
    apply List.eq_nil_iff_forall_not_mem.mpr
    rintro ⟨k, q⟩ hmem
    simpa [h k] using mem_toList.mp hmem

theorem lastKey_eq_some {k : κ} (h : m.lastKey = some k) :
    (∃ q, m[k]? = some q) ∧ ∀ k' q', m[k']? = some q' → k' ≤ k := by
  unfold lastKey at h
  rcases List.eq_nil_or_concat m.toList with hl | ⟨es, e, hl⟩
  · simp [hl] at h
  · have hk : e.1 = k := by simpa [hl] using h
    have hsorted := pairwise_toList m
    rw [hl] at hsorted
    refine ⟨⟨e.2, mem_toList.mp (by simp [hl, ← hk])⟩, ?_⟩
    intro k' q' hq'
    have hmem : (k', q') ∈ es ++ [e] := by
      rw [← List.concat_eq_append, ← hl]
      exact mem_toList.mpr hq'
    rcases List.mem_append.mp hmem with hmem | hmem
    · rw [List.concat_eq_append] at hsorted
      exact hk ▸ ((List.pairwise_append.mp hsorted).2.2 _ hmem e (by simp)).le
    · obtain rfl : (k', q') = e := by simpa using hmem
      exact hk.le

theorem lastKey_eq_none : m.lastKey = none ↔ ∀ k : κ, m[k]? = none := by
  rw [← firstKey_eq_none]
  simp [lastKey, firstKey]

theorem mem_entries {x : α} : x ∈ m.entries ↔ ∃ k, Holds m k x := by
  simp only [entries, List.mem_flatMap, Prod.exists, mem_toList, Holds]

theorem mem_atLeast {k : κ} {x : α} : x ∈ m.atLeast k ↔ ∃ k', k ≤ k' ∧ Holds m k' x := by
  simp only [atLeast, List.mem_flatMap, List.mem_filter, Prod.exists, mem_toList, Holds,
    decide_eq_true_eq]
  constructor
  · rintro ⟨k', q, ⟨hq, hk⟩, hx⟩
    exact ⟨k', hk, q, hq, hx⟩
  · rintro ⟨k', hk, q, hq, hx⟩
    exact ⟨k', q, ⟨hq, hk⟩, hx⟩

theorem mem_atMost {k : κ} {x : α} : x ∈ m.atMost k ↔ ∃ k', k' ≤ k ∧ Holds m k' x := by
  simp only [atMost, List.mem_flatMap, List.mem_filter, Prod.exists, mem_toList, Holds,
    decide_eq_true_eq]
  constructor
  · rintro ⟨k', q, ⟨hq, hk⟩, hx⟩
    exact ⟨k', hk, q, hq, hx⟩
  · rintro ⟨k', hk, q, hq, hx⟩
    exact ⟨k', q, ⟨hq, hk⟩, hx⟩

/-- A map is listed by every list of its entries in increasing key order. -/
theorem toList_eq_of_sorted {l : List (κ × List α)} (hl : l.Pairwise (fun a b => a.1 < b.1))
    (hmem : ∀ k q, (k, q) ∈ l ↔ m[k]? = some q) : m.toList = l := by
  have hne : ∀ {l' : List (κ × List α)}, l'.Pairwise (fun a b => a.1 < b.1) → l'.Nodup :=
    fun h => h.imp fun hlt heq => hlt.ne (congrArg Prod.fst heq)
  have hperm : m.toList.Perm l := by
    apply (List.perm_ext_iff_of_nodup (hne (pairwise_toList m)) (hne hl)).mpr
    rintro ⟨k, q⟩
    rw [mem_toList, hmem]
  apply hperm.eq_of_pairwise _ (pairwise_toList m) hl
  intro a b _ _ hab hba
  exact absurd hab hba.asymm

theorem toList_erase {k : κ} {q : List α} {front back : List (κ × List α)}
    (h : m.toList = front ++ (k, q) :: back) : (m.erase k).toList = front ++ back := by
  have hsorted := pairwise_toList m
  rw [h] at hsorted
  have hne : ∀ e ∈ front ++ back, e.1 ≠ k := by
    obtain ⟨_, hback, hfront⟩ := List.pairwise_append.mp hsorted
    intro e he
    rcases List.mem_append.mp he with he | he
    · exact (hfront e he _ List.mem_cons_self).ne
    · exact (List.rel_of_pairwise_cons hback he).ne'
  apply toList_eq_of_sorted
  · exact hsorted.sublist ((List.sublist_cons_self _ _).append_left front)
  · intro k' q'
    rw [ExtTreeMap.getElem?_erase]
    by_cases hk : k = k'
    · subst k'
      simpa using fun hmem => hne (k, q') hmem rfl
    · rw [if_neg (by simpa using hk), ← mem_toList, h]
      simp [Ne.symm hk]

/-- The first key's queue opens the increasing traversal. -/
theorem entries_of_firstKey {k : κ} (h : m.firstKey = some k) :
    ∃ q, m[k]? = some q ∧ m.entries = q ++ entries (m.erase k) := by
  unfold firstKey at h
  cases hl : m.toList with
  | nil => simp [hl] at h
  | cons e es =>
      obtain rfl : e.1 = k := by simpa [hl] using h
      refine ⟨e.2, mem_toList.mp (by simp [hl]), ?_⟩
      have herase := toList_erase (show m.toList = [] ++ (e.1, e.2) :: es from hl)
      rw [entries, entries, herase, hl]
      rfl

/-- The queues in decreasing key order, joined. -/
def descending (m : QueueMap κ α) : List α := m.toList.reverse.flatMap Prod.snd

/-- The last key's queue opens the decreasing traversal. -/
theorem descending_of_lastKey {k : κ} (h : m.lastKey = some k) :
    ∃ q, m[k]? = some q ∧ m.descending = q ++ descending (m.erase k) := by
  unfold lastKey at h
  rcases List.eq_nil_or_concat m.toList with hl | ⟨es, e, hl⟩
  · simp [hl] at h
  · obtain rfl : e.1 = k := by simpa [hl] using h
    rw [List.concat_eq_append] at hl
    refine ⟨e.2, mem_toList.mp (by simp [hl]), ?_⟩
    have herase := toList_erase (show m.toList = es ++ (e.1, e.2) :: [] from hl)
    rw [descending, descending, herase, hl]
    simp

theorem mem_descending {x : α} : x ∈ m.descending ↔ ∃ k, Holds m k x := by
  simp only [descending, List.mem_flatMap, List.mem_reverse, Prod.exists, mem_toList, Holds]

/-- Elements of a key-ordered traversal have distinct labels when the labels are distinct in
each queue and no label occurs under two keys. -/
theorem nodup_labels {ι : Type*} (f : α → ι) {l : List (κ × List α)} (hl : l.Sublist m.toList)
    (hq : ∀ (k : κ) (q : List α), m[k]? = some q → (q.map f).Nodup)
    (hsep : ∀ {k k' : κ} {x y : α}, Holds m k x → Holds m k' y → f x = f y → k = k') :
    ((l.flatMap Prod.snd).map f).Nodup := by
  rw [List.map_flatMap, List.nodup_flatMap]
  constructor
  · rintro ⟨k, q⟩ hmem
    exact hq k q (mem_toList.mp (hl.subset hmem))
  · apply ((pairwise_toList m).sublist hl).imp_of_mem
    rintro ⟨k, q⟩ ⟨k', q'⟩ hmem hmem' hlt
    intro i hi hi'
    obtain ⟨x, hx, rfl⟩ := List.mem_map.mp hi
    obtain ⟨y, hy, hxy⟩ := List.mem_map.mp hi'
    have hk := hsep ⟨q, mem_toList.mp (hl.subset hmem), hx⟩
      ⟨q', mem_toList.mp (hl.subset hmem'), hy⟩ hxy.symm
    exact absurd hk hlt.ne

/-- A traversal that takes each queue at most once visits the elements of one key in the order of
their queue. -/
theorem pairwise_queues {R : α → α → Prop} (g : α → κ) {l : List (κ × List α)}
    (hl : ∀ e ∈ l, e ∈ m.toList) (hkeys : l.Pairwise (fun a b => a.1 ≠ b.1))
    (hg : ∀ {k : κ} {x : α}, Holds m k x → g x = k)
    (hR : ∀ {k : κ} {q : List α}, m[k]? = some q → q.Pairwise R) :
    (l.flatMap Prod.snd).Pairwise (fun x y => g x = g y → R x y) := by
  have hkey : ∀ e ∈ l, ∀ x ∈ e.2, g x = e.1 := by
    intro e he x hx
    exact hg ⟨e.2, mem_toList.mp (hl e he), hx⟩
  rw [List.pairwise_flatMap]
  constructor
  · intro e he
    apply (hR (mem_toList.mp (hl e he))).imp
    intro x y hxy _
    exact hxy
  · apply hkeys.imp_of_mem
    intro e e' he he' hne x hx y hy heq
    rw [hkey e he x hx, hkey e' he' y hy] at heq
    exact absurd heq hne

/-- A key-ordered traversal visits the elements by increasing key. -/
theorem pairwise_keys (g : α → κ) {l : List (κ × List α)} (hl : l.Sublist m.toList)
    (hg : ∀ {k : κ} {x : α}, Holds m k x → g x = k) :
    (l.flatMap Prod.snd).Pairwise (fun x y => g x ≤ g y) := by
  have hkey : ∀ e ∈ l, ∀ x ∈ e.2, g x = e.1 := by
    intro e he x hx
    exact hg ⟨e.2, mem_toList.mp (hl.subset he), hx⟩
  rw [List.pairwise_flatMap]
  constructor
  · intro e he
    apply List.pairwise_of_forall_mem_list
    intro x hx y hy
    rw [hkey e he x hx, hkey e he y hy]
  · apply ((pairwise_toList m).sublist hl).imp_of_mem
    intro e e' he he' hlt x hx y hy
    rw [hkey e he x hx, hkey e' he' y hy]
    exact hlt.le

end Traversal

end QueueMap

end ActixPura
