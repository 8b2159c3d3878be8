import Mathlib

/-!
# Caches that drop what was used least recently

The entries of a cache are listed from the one that was used last to the one that was used least
recently. Reading an entry and writing it both put it first, and an entry that there is no room for
is dropped from the end. The laws say what each operation does to this list; nothing else is known
of a cache.
-/

namespace ActixPura

variable {C K V : Type*}

namespace Lru

variable [DecidableEq K]

/-- The entries without that of a key. -/
def remove (k : K) (entries : List (K × V)) : List (K × V) :=
  entries.filter fun e => decide (e.1 ≠ k)

/-- The entry of a key is put first. -/
def promote (k : K) (entries : List (K × V)) : List (K × V) :=
  match entries.lookup k with
  | some v => (k, v) :: remove k entries
  | none => entries

/-- A new entry of a key is put first. -/
def enter (k : K) (v : V) (entries : List (K × V)) : List (K × V) := (k, v) :: remove k entries

end Lru

/-- The operations of a cache. -/
structure LruCache (C K V : Type*) where
  new : ℕ → C
  cap : C → ℕ
  iter : C → List (K × V)
  get : C → K → Option V × C
  put : C → K → V → C
  pop : C → K → C
  clear : C → C

/-- What the operations do. -/
structure LruCache.Lawful [DecidableEq K] (lru : LruCache C K V) : Prop where
  cap_new : ∀ capacity, 0 < capacity → lru.cap (lru.new capacity) = capacity
  cap_get : ∀ cache k, lru.cap (lru.get cache k).2 = lru.cap cache
  cap_put : ∀ cache k v, lru.cap (lru.put cache k v) = lru.cap cache
  cap_pop : ∀ cache k, lru.cap (lru.pop cache k) = lru.cap cache
  cap_clear : ∀ cache, lru.cap (lru.clear cache) = lru.cap cache
  iter_new : ∀ capacity, lru.iter (lru.new capacity) = []
  get_fst : ∀ cache k, (lru.get cache k).1 = (lru.iter cache).lookup k
  iter_get : ∀ cache k, lru.iter (lru.get cache k).2 = Lru.promote k (lru.iter cache)
  iter_put : ∀ cache k v,
    lru.iter (lru.put cache k v) = (Lru.enter k v (lru.iter cache)).take (lru.cap cache)
  iter_pop : ∀ cache k, lru.iter (lru.pop cache k) = Lru.remove k (lru.iter cache)
  iter_clear : ∀ cache, lru.iter (lru.clear cache) = []

namespace Lru

variable {k : K} {v : V} {e : K × V} {entries : List (K × V)}

/-- No key has two entries. -/
def Keyed (entries : List (K × V)) : Prop := (entries.map Prod.fst).Nodup

theorem Keyed.eq_of_mem {v' : V} (h : Keyed entries) (hv : (k, v) ∈ entries)
    (hv' : (k, v') ∈ entries) : v = v' :=
  (Prod.mk.inj (List.inj_on_of_nodup_map h hv hv' rfl)).2

theorem Keyed.sublist {entries' : List (K × V)} (h : Keyed entries)
    (hsub : entries'.Sublist entries) : Keyed entries' :=
  List.Nodup.sublist (hsub.map _) h

variable [DecidableEq K]

@[simp] theorem mem_remove : e ∈ remove k entries ↔ e ∈ entries ∧ e.1 ≠ k := by
  simp [remove]

theorem mem_enter : e ∈ enter k v entries ↔ e = (k, v) ∨ (e ∈ entries ∧ e.1 ≠ k) := by
  rw [enter, List.mem_cons, mem_remove]

theorem mem_of_lookup (h : entries.lookup k = some v) : (k, v) ∈ entries := by
  induction entries with
  | nil => simp at h
  | cons e entries ih =>
      rw [List.lookup_cons] at h
      by_cases hk : k = e.1
      · simp only [hk, beq_self_eq_true, Option.some.injEq] at h
        exact List.mem_cons.mpr (Or.inl (Prod.ext hk h.symm))
      · simp only [beq_eq_false_iff_ne.mpr hk] at h
        exact List.mem_cons_of_mem _ (ih h)

theorem lookup_eq_none_iff : entries.lookup k = none ↔ ∀ e ∈ entries, e.1 ≠ k := by
  rw [List.lookup_eq_none_iff]
  exact forall₂_congr fun e _ => bne_iff_ne.trans ne_comm

theorem Keyed.enter (h : Keyed entries) : Keyed (enter k v entries) := by
  refine List.nodup_cons.mpr ⟨fun hk => ?_, h.sublist List.filter_sublist⟩
  obtain ⟨e, he, hk⟩ := List.mem_map.mp hk
  exact (mem_remove.mp he).2 hk

theorem promote_of_lookup (h : entries.lookup k = some v) :
    promote k entries = Lru.enter k v entries := by
  rw [promote, h]
  rfl

theorem promote_of_none (h : entries.lookup k = none) : promote k entries = entries := by
  rw [promote, h]

end Lru

namespace LruCache

variable [DecidableEq K] {lru : LruCache C K V}

theorem Lawful.iter_foldl_pop (h : lru.Lawful) (keys : List K) (cache : C) :
    lru.iter (keys.foldl lru.pop cache) =
      (lru.iter cache).filter fun e => decide (e.1 ∉ keys) := by
  induction keys generalizing cache with
  | nil => simp
  | cons k keys ih =>
      rw [List.foldl_cons, ih, h.iter_pop, Lru.remove, List.filter_filter]
      refine List.filter_congr fun e _ => ?_
      simp [Bool.and_comm]

theorem Lawful.cap_foldl_pop (h : lru.Lawful) (keys : List K) (cache : C) :
    lru.cap (keys.foldl lru.pop cache) = lru.cap cache := by
  induction keys generalizing cache with
  | nil => rfl
  | cons k keys ih => rw [List.foldl_cons, ih, h.cap_pop]

/-- A cache that is a capacity and its entries. -/
def list : LruCache (ℕ × List (K × V)) K V where
  new capacity := (capacity, [])
  cap := Prod.fst
  iter := Prod.snd
  get cache k := (cache.2.lookup k, (cache.1, Lru.promote k cache.2))
  put cache k v := (cache.1, (Lru.enter k v cache.2).take cache.1)
  pop cache k := (cache.1, Lru.remove k cache.2)
  clear cache := (cache.1, [])

theorem lawful_list : (list : LruCache (ℕ × List (K × V)) K V).Lawful where
  cap_new _ _ := rfl
  cap_get _ _ := rfl
  cap_put _ _ _ := rfl
  cap_pop _ _ := rfl
  cap_clear _ := rfl
  iter_new _ := rfl
  get_fst _ _ := rfl
  iter_get _ _ := rfl
  iter_put _ _ _ := rfl
  iter_pop _ _ := rfl
  iter_clear _ := rfl

end LruCache

end ActixPura
