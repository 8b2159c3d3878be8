import ActixPura.RegistryCache

/-!
# The size of the lookup cache

`registry.rs`. A limit on the cache is kept by every call: a lookup makes room before it enters an
answer, and a new limit trims the cache. What is trimmed are the newest entries, where the oldest
ones are meant, since the first of the sorted entries are kept and these are sorted by age.

The transport may be set, started or stopped between two calls, so each call comes with the
transport as it is then.
-/

namespace ActixPura

open Runs

structure TransportCall (A : Type*) where
  transport : Option Bool
  action : RegistryAction A

namespace ActorRegistry

variable {A : Type*} {r r' : ActorRegistry A}

def call (r : ActorRegistry A) (c : TransportCall A) : ActorRegistry A :=
  { r with transport := c.transport }.step c.action

/-- The cache is gone through in some order. -/
def Iterates (r : ActorRegistry A) (c : TransportCall A) : Prop :=
  match c.action with
  | .lookup _ reading =>
    reading.cacheOrder.Perm (r.cleanedBy reading.cleaned).lookupCache.toList
  | .setMaxCacheSize _ order => order.Perm r.lookupCache.toList
  | _ => True

/-- The cache is within its limit, unless that is zero. -/
def Bounded (r : ActorRegistry A) : Prop :=
  0 < r.maxCacheSize → r.lookupCache.size ≤ r.maxCacheSize

/-- A limit that some entries exceed, no two of which were entered at the same time. -/
def Exceeded (r : ActorRegistry A) (maxSize : ℕ) : Prop :=
  0 < maxSize ∧ maxSize < r.lookupCache.size ∧
    (r.lookupCache.toList.map fun e => e.2.2).Nodup

/-- What is left are the entries that fewer others than the limit are newer than. -/
def NewestKept (r r' : ActorRegistry A) (maxSize : ℕ) : Prop :=
  ∀ (path : String) (entry : ClusterActorRef A × ℕ), r'.lookupCache[path]? = some entry ↔
    r.lookupCache[path]? = some entry ∧
      r.lookupCache.toList.countP (fun e => decide (entry.2 < e.2.2)) < maxSize

/-- A new limit that is exceeded keeps as many entries as it allows, and the newest ones. -/
def KeepsNewest (r : ActorRegistry A) (c : TransportCall A) : Prop :=
  match c.action with
  | .setMaxCacheSize maxSize _ => r.Exceeded maxSize → r.NewestKept (r.call c) maxSize
  | _ => True

/-- No new limit is exceeded. -/
def Trimless (r : ActorRegistry A) (c : TransportCall A) : Prop :=
  match c.action with
  | .setMaxCacheSize maxSize _ => ¬ r.Exceeded maxSize
  | _ => True

/-! ## The limit -/

theorem Bounded.of_size_le (h : r.Bounded) (hmax : r'.maxCacheSize = r.maxCacheSize)
    (hsize : r'.lookupCache.size ≤ r.lookupCache.size) : r'.Bounded := by
  intro hpos
  rw [hmax] at hpos ⊢
  exact hsize.trans (h hpos)

theorem bounded_cleanedBy (h : r.Bounded) (cleaned : Option ℕ) : (r.cleanedBy cleaned).Bounded := by
  cases cleaned with
  | none => exact h
  | some now => exact h.of_size_le rfl Std.ExtTreeMap.size_filter_le_size

/-- The oldest entry of a full cache makes room for the new one. -/
theorem bounded_cacheInsert (h : r.Bounded) (path : String) (actorRef : ClusterActorRef A)
    (now : ℕ) {order : List (String × ClusterActorRef A × ℕ)}
    (horder : order.Perm r.lookupCache.toList) :
    (r.cacheInsert path actorRef now order).Bounded := by
  intro hpos
  change 0 < r.maxCacheSize at hpos
  have hle := h hpos
  unfold cacheInsert
  by_cases hfull : r.maxCacheSize > 0 ∧ r.lookupCache.size ≥ r.maxCacheSize
  · simp only [if_pos hfull]
    have hlength := horder.length_eq.trans Std.ExtTreeMap.length_toList
    cases holdest : order.argmin fun e => e.2.2 with
    | none =>
        rw [List.argmin_eq_none.mp holdest, List.length_nil] at hlength
        omega
    | some oldest =>
        have hmem := horder.mem_iff.mp (List.argmin_mem holdest)
        have hkey : oldest.1 ∈ r.lookupCache := Std.ExtTreeMap.mem_iff_isSome_getElem?.mpr
          (by rw [Std.ExtTreeMap.mem_toList_iff_getElem?_eq_some.mp hmem]; rfl)
        have herase : (r.lookupCache.erase oldest.1).size = r.lookupCache.size - 1 := by
          rw [Std.ExtTreeMap.size_erase, if_pos (Std.ExtTreeMap.mem_iff_contains.mp hkey)]
        have hinsert := Std.ExtTreeMap.size_insert_le (t := r.lookupCache.erase oldest.1)
          (k := path) (v := (actorRef, now))
        simp only
        omega
  · simp only [if_neg hfull]
    have hinsert := Std.ExtTreeMap.size_insert_le (t := r.lookupCache) (k := path)
      (v := (actorRef, now))
    omega

theorem size_foldl_insert_le (entries : List (String × ClusterActorRef A × ℕ))
    (cache : Std.ExtTreeMap String (ClusterActorRef A × ℕ) compare) :
    (entries.foldl (fun cache e => cache.insert e.1 e.2) cache).size ≤
      cache.size + entries.length := by
  induction entries generalizing cache with
  | nil => exact le_rfl
  | cons e entries ih =>
      have hinsert := Std.ExtTreeMap.size_insert_le (t := cache) (k := e.1) (v := e.2)
      have hrest := ih (cache.insert e.1 e.2)
      rw [List.foldl_cons, List.length_cons]
      omega

theorem bounded_setMaxCacheSize (r : ActorRegistry A) (maxSize : ℕ)
    (order : List (String × ClusterActorRef A × ℕ)) :
    (r.setMaxCacheSize maxSize order).Bounded := by
  intro hpos
  change 0 < maxSize at hpos
  simp only [setMaxCacheSize]
  by_cases hsize : r.lookupCache.size > maxSize
  · rw [if_pos ⟨hpos, hsize⟩]
    refine (size_foldl_insert_le _ _).trans ?_
    rw [Std.ExtTreeMap.size_empty, Nat.zero_add]
    exact List.length_take_le _ _
  · rw [if_neg fun h => hsize h.2]
    exact Nat.not_lt.mp hsize

theorem bounded_lookup (h : r.Bounded) {path : String} {reading : LookupReading A}
    (horder : reading.cacheOrder.Perm (r.cleanedBy reading.cleaned).lookupCache.toList) :
    (r.lookup path reading).1.Bounded := by
  unfold lookup
  by_cases henabled : r.cacheEnabled = true
  · have hcleaned := bounded_cleanedBy h reading.cleaned
    simp only [if_pos henabled]
    split
    · exact hcleaned
    · split
      · exact bounded_cacheInsert (r := (r.cleanedBy reading.cleaned).miss) hcleaned path _ _ horder
      · exact hcleaned
  · simpa only [if_neg henabled] using h

theorem Bounded.step (h : r.Bounded) {a : RegistryAction A}
    (hlookup : ∀ path reading, a = .lookup path reading →
      reading.cacheOrder.Perm (r.cleanedBy reading.cleaned).lookupCache.toList) :
    (r.step a).Bounded := by
  cases a with
  | registerLocal path actor =>
      simp only [ActorRegistry.step, registerLocal]
      split_ifs
      · exact h
      · exact h.of_size_le rfl Std.ExtTreeMap.size_erase_le
  | registerRemote path nodeId => exact h.of_size_le rfl Std.ExtTreeMap.size_erase_le
  | deregisterLocal path =>
      simp only [ActorRegistry.step, deregisterLocal]
      split_ifs
      · exact h.of_size_le rfl Std.ExtTreeMap.size_erase_le
      · exact h
  | deregisterRemote path =>
      simp only [ActorRegistry.step, deregisterRemote]
      split_ifs
      · exact h.of_size_le rfl Std.ExtTreeMap.size_erase_le
      · exact h
  | awaitDiscovery path waiter => exact h
  | handleDiscoveryResponse path locations =>
      simp only [ActorRegistry.step, handleDiscoveryResponse]
      split
      · exact h
      · split <;> exact h
  | lookup path reading => exact bounded_lookup h (hlookup path reading rfl)
  | setCacheTtl ttl => exact h
  | setMaxCacheSize maxSize order => exact bounded_setMaxCacheSize r maxSize order
  | enableCache => exact h
  | disableCache => exact fun _ => Nat.zero_le _
  | clearCache => exact fun _ => Nat.zero_le _

theorem Bounded.call (h : r.Bounded) {c : TransportCall A} (hiterates : r.Iterates c) :
    (r.call c).Bounded := by
  obtain ⟨transport, action⟩ := c
  have htransport : Bounded { r with transport := transport } := h
  refine htransport.step ?_
  rintro path reading rfl
  obtain ⟨cleaned, now, insertedAt, remoteOrder, cacheOrder⟩ := reading
  cases cleaned with
  | none => exact hiterates
  | some cleanedAt => exact hiterates

/-! ## Trimming -/

theorem mem_of_foldl_insert {entries : List (String × ClusterActorRef A × ℕ)}
    {cache : Std.ExtTreeMap String (ClusterActorRef A × ℕ) compare} {path : String}
    {entry : ClusterActorRef A × ℕ}
    (h : (entries.foldl (fun cache e => cache.insert e.1 e.2) cache)[path]? = some entry) :
    (path, entry) ∈ entries ∨ cache[path]? = some entry := by
  induction entries generalizing cache with
  | nil => exact Or.inr h
  | cons e entries ih =>
      rcases ih h with hmem | hget
      · exact Or.inl (List.mem_cons_of_mem _ hmem)
      · rw [Std.ExtTreeMap.getElem?_insert] at hget
        split_ifs at hget with hkey
        · rw [Std.compare_eq_iff_eq] at hkey
          obtain rfl := Option.some.inj hget
          exact Or.inl (hkey ▸ List.mem_cons_self)
        · exact Or.inr hget

/-- The newest entry comes last when the entries are sorted by age, and is cut off. -/
theorem newest_not_mem_take {entries sorted : List (String × ClusterActorRef A × ℕ)} {n : ℕ}
    (hperm : sorted.Perm entries) (hsorted : sorted.Pairwise fun e e' => e.2.2 ≤ e'.2.2)
    (hdistinct : (entries.map fun e => e.2.2).Nodup) (hlt : n < entries.length)
    {newest : String × ClusterActorRef A × ℕ} (hnewest : ∀ e ∈ entries, e.2.2 ≤ newest.2.2) :
    newest ∉ sorted.take n := by
  intro hmem
  obtain ⟨e, he⟩ : ∃ e, e ∈ sorted.drop n := List.exists_mem_of_ne_nil _ fun hnil => by
    have hlength := List.drop_eq_nil_iff.mp hnil
    rw [hperm.length_eq] at hlength
    omega
  rw [← List.take_append_drop n sorted] at hsorted
  have hle := (List.pairwise_append.mp hsorted).2.2 newest hmem e he
  have hge := hnewest e (hperm.mem_iff.mp (List.mem_of_mem_drop he))
  have hnodup := (hperm.map fun e => e.2.2).nodup_iff.mpr hdistinct
  rw [← List.take_append_drop n sorted, List.map_append] at hnodup
  refine List.disjoint_of_nodup_append hnodup (List.mem_map_of_mem hmem) ?_
  rw [le_antisymm hle hge]
  exact List.mem_map_of_mem he

theorem exists_newest (hpos : 0 < r.lookupCache.size) :
    ∃ newest ∈ r.lookupCache.toList, ∀ e ∈ r.lookupCache.toList, e.2.2 ≤ newest.2.2 := by
  rw [← Std.ExtTreeMap.length_toList] at hpos
  obtain ⟨newest, hnewest⟩ := Option.ne_none_iff_exists'.mp
    (List.argmax_eq_none.not.mpr (List.ne_nil_of_length_pos hpos) :
      r.lookupCache.toList.argmax (fun e => e.2.2) ≠ none)
  exact ⟨newest, List.argmax_mem hnewest,
    fun e he => List.le_of_mem_argmax (f := fun e => e.2.2) he hnewest⟩

theorem not_newestKept {maxSize : ℕ} {order : List (String × ClusterActorRef A × ℕ)}
    (horder : order.Perm r.lookupCache.toList) (hexceeded : r.Exceeded maxSize) :
    ¬ r.NewestKept (r.setMaxCacheSize maxSize order) maxSize := by
  obtain ⟨hpos, hsize, hdistinct⟩ := hexceeded
  obtain ⟨newest, hmem, hnewest⟩ := exists_newest (hpos.trans hsize)
  intro hkept
  have hget := (hkept newest.1 newest.2).mpr
    ⟨Std.ExtTreeMap.mem_toList_iff_getElem?_eq_some.mp hmem, ?_⟩
  · simp only [setMaxCacheSize, if_pos (And.intro hpos hsize)] at hget
    rcases mem_of_foldl_insert hget with htake | hempty
    · have hsorted := List.pairwise_insertionSort
        (fun e e' : String × ClusterActorRef A × ℕ => e.2.2 ≤ e'.2.2) order
      refine newest_not_mem_take ((List.perm_insertionSort _ _).trans horder) hsorted hdistinct ?_
        hnewest htake
      rwa [Std.ExtTreeMap.length_toList]
    · simp at hempty
  · rw [List.countP_eq_zero.mpr fun e he => by simpa using hnewest e he]
    exact hpos

theorem keepsNewest_iff {c : TransportCall A} (hiterates : r.Iterates c) :
    r.KeepsNewest c ↔ r.Trimless c := by
  obtain ⟨transport, action⟩ := c
  cases action with
  | setMaxCacheSize maxSize order =>
      exact ⟨fun h hexceeded => not_newestKept hiterates hexceeded (h hexceeded),
        fun h hexceeded => absurd hexceeded h⟩
  | _ => exact Iff.rfl

/-! ## Runs -/

theorem bounded_run {calls : List (TransportCall A)} (localNodeId : NodeId)
    (h : Admissible call Iterates (new localNodeId) calls) :
    (run call (new localNodeId) calls).Bounded :=
  invariant_run (fun _ _ hbounded hiterates => hbounded.call hiterates)
    (fun _ => Nat.zero_le _) h

/-- The cache is within its limit after every call. A call that sets an exceeded limit does not keep
the newest entries, so they are kept in a run exactly if there is no such call. -/
theorem registry_cache (localNodeId : NodeId) (calls : List (TransportCall A))
    (h : Admissible call Iterates (new localNodeId) calls) :
    (∀ before after, calls = before ++ after →
      (run call (new localNodeId) before).Bounded) ∧
    (Admissible call KeepsNewest (new localNodeId) calls ↔
      Admissible call Trimless (new localNodeId) calls) := by
  refine ⟨?_, ?_⟩
  · rintro before after rfl
    exact bounded_run localNodeId (admissible_append.mp h).1
  · rw [admissible_iff_forall] at h ⊢
    rw [admissible_iff_forall]
    constructor
    · exact fun hkeeps before c after heq =>
        (keepsNewest_iff (h before c after heq)).mp (hkeeps before c after heq)
    · exact fun htrimless before c after heq =>
        (keepsNewest_iff (h before c after heq)).mpr (htrimless before c after heq)

/-- Two actors that are looked up one after the other. -/
def twoLookups : List (TransportCall ℕ) :=
  [⟨none, .registerLocal "a" 7⟩, ⟨none, .registerLocal "b" 8⟩,
    ⟨none, .lookup "a" ⟨none, 1, 1, [], []⟩⟩,
    ⟨none, .lookup "b" ⟨none, 2, 2, [], [("a", .localActor 7, 1)]⟩⟩]

theorem admissible_twoLookups : Admissible call Iterates (new 1) twoLookups := by
  refine ⟨trivial, trivial, ?_, ?_, trivial⟩
  · exact List.isPerm_iff.mp (by decide +kernel)
  · exact List.isPerm_iff.mp (by decide +kernel)

/-- The two lookups and then a new limit. -/
def limited (maxSize : ℕ) : List (TransportCall ℕ) :=
  twoLookups ++ [⟨none, .setMaxCacheSize maxSize (run call (new 1) twoLookups).lookupCache.toList⟩]

theorem admissible_limited (maxSize : ℕ) : Admissible call Iterates (new 1) (limited maxSize) :=
  admissible_append.mpr ⟨admissible_twoLookups, List.Perm.refl _, trivial⟩

/-- A limit that both entries fit keeps the newest, and a limit of one entry does not. -/
theorem registry_cache_two : (run call (new 1) (limited 1)).Bounded ∧
    Admissible call KeepsNewest (new 1) (limited 2) ∧
    ¬ Admissible call KeepsNewest (new 1) (limited 1) := by
  refine ⟨?_, ?_, fun hkeeps => ?_⟩
  · exact (registry_cache 1 (limited 1) (admissible_limited 1)).1 _ [] (List.append_nil _).symm
  · refine (registry_cache 1 (limited 2) (admissible_limited 2)).2.mpr
      (admissible_append.mpr ⟨⟨trivial, trivial, trivial, trivial, trivial⟩, ?_, trivial⟩)
    exact fun hexceeded => absurd hexceeded.2.1 (by decide +kernel)
  · have htrimless := (registry_cache 1 (limited 1) (admissible_limited 1)).2.mp hkeeps
    exact (admissible_append.mp htrimless).2.1 ⟨by decide, by decide +kernel, by decide +kernel⟩

/-- One entry is to be kept of the two, and it is the older one. -/
theorem not_keepsNewest :
    let r := run call (new 1) twoLookups
    let r' := r.setMaxCacheSize 1 r.lookupCache.toList
    r.Exceeded 1 ∧ ¬ r.NewestKept r' 1 ∧ r'.lookupCache.toList = [("a", .localActor 7, 1)] := by
  intro r r'
  have hexceeded : r.Exceeded 1 := ⟨by decide, by decide +kernel, by decide +kernel⟩
  exact ⟨hexceeded, not_newestKept (List.Perm.refl _) hexceeded, by decide +kernel⟩

end ActorRegistry

end ActixPura
