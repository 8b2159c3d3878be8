import ActixPura.Registry

/-!
# The lookup cache against the registry

A lookup that is answered by the cache should answer what the other steps could have answered. The
registrations and deregistrations drop the entry of their path. The handler of discovery responses
enters a remote actor without dropping anything; this is harmless for most entries, since the
remaining registrations of the path still are possible answers, but it may replace the very
registration that the entry was read from.
-/

namespace ActixPura

open Runs

/-- The calls of a sequential run. -/
inductive RegistryAction (A : Type*)
  | registerLocal (path : String) (actor : A)
  | registerRemote (path : ActorPath) (nodeId : NodeId)
  | deregisterLocal (path : String)
  | deregisterRemote (path : ActorPath)
  | awaitDiscovery (path : String) (waiter : ℕ)
  | handleDiscoveryResponse (path : String) (locations : List NodeId)
  | lookup (path : String) (reading : LookupReading A)
  | setCacheTtl (ttl : ℕ)
  | setMaxCacheSize (maxSize : ℕ) (order : List (String × ClusterActorRef A × ℕ))
  | enableCache
  | disableCache
  | clearCache

namespace ActorRegistry

variable {A : Type*} {r : ActorRegistry A}

/-- A call that returns an error changes nothing. -/
def step (r : ActorRegistry A) : RegistryAction A → ActorRegistry A
  | .registerLocal path actor => (r.registerLocal path actor).toOption.getD r
  | .registerRemote path nodeId => r.registerRemote path nodeId
  | .deregisterLocal path => (r.deregisterLocal path).toOption.getD r
  | .deregisterRemote path => (r.deregisterRemote path).toOption.getD r
  | .awaitDiscovery path waiter => r.awaitDiscovery path waiter
  | .handleDiscoveryResponse path locations => (r.handleDiscoveryResponse path locations).1
  | .lookup path reading => (r.lookup path reading).1
  | .setCacheTtl ttl => r.setCacheTtl ttl
  | .setMaxCacheSize maxSize order => r.setMaxCacheSize maxSize order
  | .enableCache => r.enableCache
  | .disableCache => r.disableCache
  | .clearCache => r.clearCache

/-- The orders are orders of the maps, and responses do not name this node. -/
def Enabled (r : ActorRegistry A) : RegistryAction A → Prop
  | .handleDiscoveryResponse _ locations => r.localNodeId ∉ locations
  | .lookup _ reading => reading.remoteOrder.Perm r.remoteActors.toList ∧
      reading.cacheOrder.Perm (r.cleanedBy reading.cleaned).lookupCache.toList
  | .setMaxCacheSize _ order => order.Perm r.lookupCache.toList
  | _ => True

/-- What the lookup steps without the cache may answer, over all orders of the map of remote
actors. -/
def Possible (r : ActorRegistry A) (path : String) (actorRef : ClusterActorRef A) : Prop :=
  ∃ order, order.Perm r.remoteActors.toList ∧ r.uncached path order = some actorRef

/-- A lookup that the cache answers gives a possible answer. -/
def Transparent (r : ActorRegistry A) : RegistryAction A → Prop
  | .lookup path reading => r.cacheEnabled = true → ∀ actorRef,
      (r.cleanedBy reading.cleaned).cached path reading.now = some actorRef →
      r.Possible path actorRef
  | _ => True

/-- A discovery response does not replace the only registration that a cached reference rests on. -/
def Undisturbed (r : ActorRegistry A) : RegistryAction A → Prop
  | .handleDiscoveryResponse path (first :: _) => path ∈ r.pendingDiscoveries →
      ∀ nodeId timestamp, nodeId ≠ first →
      r.remoteActors[(⟨first, path⟩ : ActorPath)]? = some nodeId →
      r.lookupCache[path]? = some (.remoteActor nodeId path, timestamp) →
      (⟨r.localNodeId, path⟩ : ActorPath) ∈ r.remoteActors ∨
        ∃ other ≠ first, r.remoteActors[(⟨other, path⟩ : ActorPath)]? = some nodeId
  | _ => True

theorem possible_iff (hstarted : r.transport = some true) {path : String}
    {actorRef : ClusterActorRef A} :
    r.Possible path actorRef ↔
      match r.localActors[path]? with
      | some actor => actorRef = .localActor actor
      | none =>
        match r.remoteActors[(⟨r.localNodeId, path⟩ : ActorPath)]? with
        | some nodeId => actorRef = .remoteActor nodeId path
        | none => ∃ (other nodeId : NodeId), r.remoteActors[(⟨other, path⟩ : ActorPath)]? =
            some nodeId ∧ actorRef = .remoteActor nodeId path := by
  unfold Possible uncached findRemote
  cases hlocal : r.localActors[path]? with
  | some actor =>
      simp only [Option.some.injEq]
      exact ⟨fun ⟨_, _, h⟩ => h.symm, fun h => ⟨_, List.Perm.refl _, h.symm⟩⟩
  | none =>
      cases hown : r.remoteActors[(⟨r.localNodeId, path⟩ : ActorPath)]? with
      | some nodeId =>
          simp only [hstarted, if_true, Option.some.injEq]
          exact ⟨fun ⟨_, _, h⟩ => h.symm, fun h => ⟨_, List.Perm.refl _, h.symm⟩⟩
      | none =>
          simp only [hstarted]
          constructor
          · rintro ⟨order, horder, h⟩
            cases hfind : order.find? fun e => e.1.path = path with
            | none => simp [hfind] at h
            | some e =>
                obtain ⟨⟨other, path'⟩, nodeId⟩ := e
                simp only [hfind, Option.some.injEq] at h
                obtain rfl : path' = path := by simpa using List.find?_some hfind
                have hmem := horder.mem_iff.mp (List.mem_of_find?_eq_some hfind)
                exact ⟨other, nodeId, Std.ExtTreeMap.mem_toList_iff_getElem?_eq_some.mp hmem,
                  h.symm⟩
          · rintro ⟨other, nodeId, hentry, rfl⟩
            have hmem := Std.ExtTreeMap.mem_toList_iff_getElem?_eq_some.mpr hentry
            obtain ⟨before, after, hsplit⟩ := List.append_of_mem hmem
            refine ⟨(⟨other, path⟩, nodeId) :: (before ++ after), ?_, ?_⟩
            · rw [hsplit]
              exact List.perm_middle.symm
            · simp

/-- The answers for a path depend only on what is registered under it. -/
theorem possible_congr (r' : ActorRegistry A) (hstarted : r.transport = some true)
    (htransport : r'.transport = r.transport) (hnode : r'.localNodeId = r.localNodeId)
    {path : String} (hlocal : r'.localActors[path]? = r.localActors[path]?)
    (hremote : ∀ other, r'.remoteActors[(⟨other, path⟩ : ActorPath)]? =
      r.remoteActors[(⟨other, path⟩ : ActorPath)]?) {actorRef : ClusterActorRef A}
    (h : r.Possible path actorRef) : r'.Possible path actorRef := by
  rw [possible_iff hstarted] at h
  rw [possible_iff (htransport.trans hstarted), hlocal, hnode]
  simp only [hremote]
  exact h

/-- Every entry of the cache is a possible answer, with the transport started. -/
structure CacheSound (r : ActorRegistry A) : Prop where
  started : r.transport = some true
  sound : ∀ path actorRef timestamp, r.lookupCache[path]? = some (actorRef, timestamp) →
    r.Possible path actorRef
  disabled : r.cacheEnabled = false → r.lookupCache = ∅

/-- The maps are left, and the cache only loses entries. -/
theorem CacheSound.shrink {r' : ActorRegistry A} (h : r.CacheSound)
    (htransport : r'.transport = r.transport) (hnode : r'.localNodeId = r.localNodeId)
    (hlocal : r'.localActors = r.localActors) (hremote : r'.remoteActors = r.remoteActors)
    (hdisabled : r'.cacheEnabled = false → r'.lookupCache = ∅)
    (hcache : ∀ (path : String) (entry : ClusterActorRef A × ℕ),
      r'.lookupCache[path]? = some entry → r.lookupCache[path]? = some entry) :
    r'.CacheSound := by
  refine ⟨htransport.trans h.started, fun path actorRef timestamp hentry => ?_, hdisabled⟩
  exact possible_congr r' h.started htransport hnode (by rw [hlocal]) (fun _ => by rw [hremote])
    (h.sound path actorRef timestamp (hcache path _ hentry))

/-- What is registered under one path changes, and the cache loses the entry of that path. -/
theorem CacheSound.invalidate {r' : ActorRegistry A} (h : r.CacheSound)
    (htransport : r'.transport = r.transport) (hnode : r'.localNodeId = r.localNodeId)
    (henabled : r'.cacheEnabled = r.cacheEnabled) {changed : String}
    (hcache : r'.lookupCache = r.lookupCache.erase changed)
    (hlocal : ∀ path, path ≠ changed → r'.localActors[path]? = r.localActors[path]?)
    (hremote : ∀ (path : ActorPath), path.path ≠ changed →
      r'.remoteActors[path]? = r.remoteActors[path]?) : r'.CacheSound := by
  refine ⟨htransport.trans h.started, fun path actorRef timestamp hentry => ?_, fun hoff => ?_⟩
  · rw [hcache] at hentry
    obtain ⟨hne, hold⟩ := getElem?_erase_some hentry
    exact possible_congr r' h.started htransport hnode (hlocal path (Ne.symm hne))
      (fun other => hremote ⟨other, path⟩ (Ne.symm hne)) (h.sound path actorRef timestamp hold)
  · rw [hcache, h.disabled (henabled ▸ hoff)]
    rfl

theorem CacheSound.registerLocal (h : r.CacheSound) (path : String) (actor : A) :
    ((r.registerLocal path actor).toOption.getD r).CacheSound := by
  unfold ActorRegistry.registerLocal
  split_ifs
  · exact h
  · refine h.invalidate rfl rfl rfl rfl (fun path' hne => ?_) fun _ _ => rfl
    rw [Except.toOption, Option.getD_some, Std.ExtTreeMap.getElem?_insert,
      if_neg (fun heq => hne (Std.compare_eq_iff_eq.mp heq).symm)]

theorem CacheSound.deregisterLocal (h : r.CacheSound) (path : String) :
    ((r.deregisterLocal path).toOption.getD r).CacheSound := by
  unfold ActorRegistry.deregisterLocal
  split_ifs
  · refine h.invalidate rfl rfl rfl rfl (fun path' hne => ?_) fun _ _ => rfl
    rw [Except.toOption, Option.getD_some, Std.ExtTreeMap.getElem?_erase,
      if_neg (fun heq => hne (Std.compare_eq_iff_eq.mp heq).symm)]
  · exact h

theorem CacheSound.registerRemote (h : r.CacheSound) (path : ActorPath) (nodeId : NodeId) :
    (r.registerRemote path nodeId).CacheSound := by
  refine h.invalidate rfl rfl rfl rfl (fun _ _ => rfl) fun path' hne => ?_
  rw [ActorRegistry.registerRemote, Std.ExtTreeMap.getElem?_insert,
    if_neg (fun heq => hne (congrArg ActorPath.path (ActorPath.cmp_eq_eq.mp heq)).symm)]

theorem CacheSound.deregisterRemote (h : r.CacheSound) (path : ActorPath) :
    ((r.deregisterRemote path).toOption.getD r).CacheSound := by
  unfold ActorRegistry.deregisterRemote
  split_ifs
  · refine h.invalidate rfl rfl rfl rfl (fun _ _ => rfl) fun path' hne => ?_
    rw [Except.toOption, Option.getD_some, Std.ExtTreeMap.getElem?_erase,
      if_neg (fun heq => hne (congrArg ActorPath.path (ActorPath.cmp_eq_eq.mp heq)).symm)]
  · exact h

theorem CacheSound.cleanedBy (h : r.CacheSound) (cleaned : Option ℕ) :
    (r.cleanedBy cleaned).CacheSound := by
  refine h.shrink ?_ ?_ ?_ ?_ (fun hoff => ?_) fun path entry hentry => getElem?_cleanedBy hentry
  iterate 4 cases cleaned <;> rfl
  cases cleaned with
  | none => exact h.disabled hoff
  | some now =>
      change r.lookupCache.filter _ = ∅
      rw [h.disabled hoff]
      rfl

theorem CacheSound.cacheInsert (h : r.CacheSound) (henabled : r.cacheEnabled = true)
    {path : String} {actorRef : ClusterActorRef A} (hpossible : r.Possible path actorRef) (now : ℕ)
    (order : List (String × ClusterActorRef A × ℕ)) :
    (r.cacheInsert path actorRef now order).CacheSound := by
  refine ⟨h.started, fun path' actorRef' timestamp hentry => ?_, fun hoff => ?_⟩
  · rcases getElem?_cacheInsert hentry with ⟨rfl, rfl⟩ | hold
    · exact hpossible
    · exact h.sound path' actorRef' timestamp hold
  · change r.cacheEnabled = false at hoff
    simp [henabled] at hoff

theorem CacheSound.lookup (h : r.CacheSound) {path : String} {reading : LookupReading A}
    (horder : reading.remoteOrder.Perm r.remoteActors.toList) :
    (r.lookup path reading).1.CacheSound := by
  unfold ActorRegistry.lookup
  cases henabled : r.cacheEnabled with
  | false => exact h
  | true =>
      have hclean := h.cleanedBy reading.cleaned
      have hsame : (r.cleanedBy reading.cleaned).cacheEnabled = true ∧
          (r.cleanedBy reading.cleaned).remoteActors = r.remoteActors := by
        cases reading.cleaned <;> exact ⟨henabled, rfl⟩
      have hmiss : (r.cleanedBy reading.cleaned).miss.CacheSound :=
        hclean.shrink rfl rfl rfl rfl hclean.disabled fun _ _ he => he
      simp only [if_true]
      cases hcached : (r.cleanedBy reading.cleaned).cached path reading.now with
      | some actorRef => exact hclean.shrink rfl rfl rfl rfl hclean.disabled fun _ _ he => he
      | none =>
          cases huncached : (r.cleanedBy reading.cleaned).miss.uncached path
            reading.remoteOrder with
          | none => exact hmiss
          | some actorRef =>
              refine hmiss.cacheInsert hsame.1 ⟨reading.remoteOrder, ?_, huncached⟩ _ _
              change reading.remoteOrder.Perm (r.cleanedBy reading.cleaned).remoteActors.toList
              rw [hsame.2]
              exact horder

theorem getElem?_foldl_insert {V : Type*} {entries : List (String × V)}
    {m : Std.ExtTreeMap String V compare} {k : String} {v : V}
    (h : (entries.foldl (fun m e => m.insert e.1 e.2) m)[k]? = some v) :
    (k, v) ∈ entries ∨ m[k]? = some v := by
  induction entries generalizing m with
  | nil => exact Or.inr h
  | cons e entries ih =>
      rcases ih h with hmem | hinsert
      · exact Or.inl (List.mem_cons_of_mem _ hmem)
      · rw [Std.ExtTreeMap.getElem?_insert] at hinsert
        split_ifs at hinsert with hk
        · obtain rfl := Std.compare_eq_iff_eq.mp hk
          obtain rfl := Option.some.inj hinsert
          exact Or.inl List.mem_cons_self
        · exact Or.inr hinsert

theorem CacheSound.setMaxCacheSize (h : r.CacheSound) (maxSize : ℕ)
    {order : List (String × ClusterActorRef A × ℕ)} (horder : order.Perm r.lookupCache.toList) :
    (r.setMaxCacheSize maxSize order).CacheSound := by
  refine h.shrink rfl rfl rfl rfl (fun hoff => ?_) fun path entry hentry => ?_
  · have hempty := h.disabled hoff
    simp [ActorRegistry.setMaxCacheSize, hempty]
  · simp only [ActorRegistry.setMaxCacheSize] at hentry
    split_ifs at hentry
    · rcases getElem?_foldl_insert hentry with hmem | hnone
      · have hsorted := (List.mem_of_mem_take hmem)
        rw [List.mem_insertionSort] at hsorted
        exact Std.ExtTreeMap.mem_toList_iff_getElem?_eq_some.mp (horder.mem_iff.mp hsorted)
      · simp at hnone
    · exact hentry

theorem enterDiscovered_remote (path : String) (first other : NodeId) :
    (r.enterDiscovered path first).remoteActors[(⟨other, path⟩ : ActorPath)]? =
      if first = other then some first else r.remoteActors[(⟨other, path⟩ : ActorPath)]? := by
  rw [enterDiscovered, Std.ExtTreeMap.getElem?_insert]
  simp

theorem enterDiscovered_remote_of_ne (r : ActorRegistry A) {path : String} (other : ActorPath)
    (hpath : other.path ≠ path) (first : NodeId) :
    (r.enterDiscovered path first).remoteActors[other]? = r.remoteActors[other]? := by
  rw [enterDiscovered, Std.ExtTreeMap.getElem?_insert, if_neg]
  intro heq
  exact hpath (congrArg ActorPath.path (ActorPath.cmp_eq_eq.mp heq)).symm

/-- A response enters the first location under its own node. -/
theorem possible_discovered (hstarted : r.transport = some true) {path : String} {first : NodeId}
    (hfirst : first ≠ r.localNodeId) {actorRef : ClusterActorRef A}
    (h : r.Possible path actorRef)
    (hkept : ∀ nodeId, nodeId ≠ first →
      r.remoteActors[(⟨first, path⟩ : ActorPath)]? = some nodeId →
      actorRef = .remoteActor nodeId path →
      (⟨r.localNodeId, path⟩ : ActorPath) ∈ r.remoteActors ∨
        ∃ other ≠ first, r.remoteActors[(⟨other, path⟩ : ActorPath)]? = some nodeId) :
    (r.enterDiscovered path first).Possible path actorRef := by
  rw [possible_iff hstarted] at h
  rw [possible_iff (r := r.enterDiscovered path first) hstarted]
  simp only [enterDiscovered_remote]
  change match r.localActors[path]? with
    | some actor => actorRef = .localActor actor
    | none =>
      match if first = r.localNodeId then some first
        else r.remoteActors[(⟨r.localNodeId, path⟩ : ActorPath)]? with
      | some nodeId => actorRef = .remoteActor nodeId path
      | none => _
  rw [if_neg hfirst]
  cases hlocal : r.localActors[path]? with
  | some actor => simpa only [hlocal] using h
  | none =>
      simp only [hlocal] at h ⊢
      cases hown : r.remoteActors[(⟨r.localNodeId, path⟩ : ActorPath)]? with
      | some nodeId => simpa only [hown] using h
      | none =>
          simp only [hown] at h ⊢
          obtain ⟨other, nodeId, hentry, rfl⟩ := h
          by_cases hother : first = other
          · subst hother
            by_cases hnode : nodeId = first
            · exact ⟨first, first, if_pos rfl, by rw [hnode]⟩
            · rcases hkept nodeId hnode hentry rfl with hin | ⟨other, hne, hentry'⟩
              · rw [Std.ExtTreeMap.mem_iff_isSome_getElem?, hown] at hin
                simp at hin
              · exact ⟨other, nodeId, by rw [if_neg (Ne.symm hne)]; exact hentry', rfl⟩
          · exact ⟨other, nodeId, by rw [if_neg hother]; exact hentry, rfl⟩

theorem handleDiscoveryResponse_eq (hstarted : r.transport = some true) (path : String)
    (locations : List NodeId) : (r.handleDiscoveryResponse path locations).1 =
      if path ∈ r.pendingDiscoveries then
        match locations with
        | [] => r.served path
        | first :: _ => (r.served path).enterDiscovered path first
      else r := by
  cases hpending : r.pendingDiscoveries[path]? with
  | none =>
      have hnot : path ∉ r.pendingDiscoveries := by
        simp [Std.ExtTreeMap.mem_iff_isSome_getElem?, hpending]
      simp only [handleDiscoveryResponse, hpending, if_neg hnot]
  | some senders =>
      have hin : path ∈ r.pendingDiscoveries := by
        simp [Std.ExtTreeMap.mem_iff_isSome_getElem?, hpending]
      simp only [handleDiscoveryResponse, hpending, if_pos hin, hstarted]
      cases locations <;> rfl

theorem CacheSound.served (h : r.CacheSound) (path : String) : (r.served path).CacheSound :=
  h.shrink rfl rfl rfl rfl h.disabled fun _ _ he => he

theorem CacheSound.handleDiscoveryResponse (h : r.CacheSound) {path : String}
    {locations : List NodeId} (hlocations : r.localNodeId ∉ locations)
    (hkept : r.Undisturbed (.handleDiscoveryResponse path locations)) :
    (r.handleDiscoveryResponse path locations).1.CacheSound := by
  rw [handleDiscoveryResponse_eq h.started]
  split_ifs with hpending
  · cases locations with
    | nil => exact h.served path
    | cons first rest =>
        have hserved := h.served path
        refine ⟨h.started, fun path' actorRef timestamp hentry => ?_, h.disabled⟩
        have hold := hserved.sound path' actorRef timestamp hentry
        by_cases hpath : path' = path
        · subst hpath
          have hfirst : first ≠ r.localNodeId := fun heq => hlocations (heq ▸ List.mem_cons_self)
          refine possible_discovered h.started hfirst hold ?_
          rintro nodeId hnode hreplaced rfl
          exact hkept hpending nodeId timestamp hnode hreplaced hentry
        · have hremote (other : NodeId) :=
            (r.served path).enterDiscovered_remote_of_ne ⟨other, path'⟩ hpath first
          exact possible_congr ((r.served path).enterDiscovered path first) hserved.started rfl rfl
            rfl hremote hold
  · exact h

theorem cacheSound_step (h : r.CacheSound) {a : RegistryAction A} (henabled : r.Enabled a)
    (hkept : r.Undisturbed a) : (r.step a).CacheSound := by
  cases a with
  | registerLocal path actor => exact h.registerLocal path actor
  | registerRemote path nodeId => exact h.registerRemote path nodeId
  | deregisterLocal path => exact h.deregisterLocal path
  | deregisterRemote path => exact h.deregisterRemote path
  | awaitDiscovery path waiter => exact h.shrink rfl rfl rfl rfl h.disabled fun _ _ he => he
  | handleDiscoveryResponse path locations => exact h.handleDiscoveryResponse henabled hkept
  | lookup path reading => exact h.lookup henabled.1
  | setCacheTtl ttl => exact h.shrink rfl rfl rfl rfl h.disabled fun _ _ he => he
  | setMaxCacheSize maxSize order => exact h.setMaxCacheSize maxSize henabled
  | enableCache =>
      exact h.shrink rfl rfl rfl rfl (fun hoff => Bool.noConfusion hoff) fun _ _ he => he
  | disableCache =>
      refine h.shrink rfl rfl rfl rfl (fun _ => rfl) fun path entry he => ?_
      change (∅ : Std.ExtTreeMap String (ClusterActorRef A × ℕ) compare)[path]? = some entry at he
      simp at he
  | clearCache =>
      refine h.shrink rfl rfl rfl rfl (fun _ => rfl) fun path entry he => ?_
      change (∅ : Std.ExtTreeMap String (ClusterActorRef A × ℕ) compare)[path]? = some entry at he
      simp at he

theorem CacheSound.transparent (h : r.CacheSound) (a : RegistryAction A) : r.Transparent a := by
  cases a with
  | lookup path reading =>
      intro _ actorRef hcached
      obtain ⟨timestamp, hentry⟩ := exists_of_cached hcached
      exact h.sound path actorRef timestamp (getElem?_cleanedBy hentry)
  | _ => trivial

/-! ## Runs -/

/-- A registry of a node with its transport set and started. -/
def connected (localNodeId : NodeId) : ActorRegistry A := (new localNodeId).setTransport true

theorem cacheSound_connected (localNodeId : NodeId) :
    (connected localNodeId : ActorRegistry A).CacheSound :=
  ⟨rfl, fun _ _ _ hentry => by simp [connected, setTransport, new] at hentry, fun _ => rfl⟩

theorem cacheSound_run {localNodeId : NodeId} {as : List (RegistryAction A)}
    (has : Admissible step Enabled (connected localNodeId) as)
    (hkept : Admissible step Undisturbed (connected localNodeId) as) :
    (run step (connected localNodeId) as).CacheSound :=
  invariant_run (I := CacheSound) (fun _ _ h hok => cacheSound_step h hok.1 hok.2)
    (cacheSound_connected localNodeId) (admissible_and.mpr ⟨has, hkept⟩)

/-- The reading of a lookup right after an entry was made. -/
def readingAt (r : ActorRegistry A) (timestamp : ℕ) : LookupReading A :=
  ⟨none, timestamp, timestamp, r.remoteActors.toList, r.lookupCache.toList⟩

/-- The replaced registration was the only one. -/
theorem not_possible_discovered (h : r.CacheSound) {path : String} {first nodeId : NodeId}
    {timestamp : ℕ} (hnode : nodeId ≠ first)
    (hentry : r.lookupCache[path]? = some (.remoteActor nodeId path, timestamp))
    (hown : (⟨r.localNodeId, path⟩ : ActorPath) ∉ r.remoteActors)
    (hothers : ∀ other, other ≠ first →
      ¬ r.remoteActors[(⟨other, path⟩ : ActorPath)]? = some nodeId) :
    ¬ (((r.served path).enterDiscovered path first).setCacheTtl 1).Possible path
      (.remoteActor nodeId path) := by
  have hlocal : r.localActors[path]? = none := by
    have hpossible := (possible_iff h.started).mp (h.sound path _ timestamp hentry)
    cases hactor : r.localActors[path]? with
    | none => rfl
    | some actor => simp [hactor] at hpossible
  rintro ⟨order, horder, huncached⟩
  have hfound : ((r.served path).enterDiscovered path first).Possible path
      (.remoteActor nodeId path) := ⟨order, horder, huncached⟩
  rw [possible_iff (r := (r.served path).enterDiscovered path first) h.started] at hfound
  have hnone : r.remoteActors[(⟨r.localNodeId, path⟩ : ActorPath)]? = none := by
    rw [Std.ExtTreeMap.mem_iff_isSome_getElem?] at hown
    exact Option.not_isSome_iff_eq_none.mp hown
  simp only [enterDiscovered_remote] at hfound
  change match r.localActors[path]? with
    | some actor => _
    | none =>
      match if first = r.localNodeId then some first
        else r.remoteActors[(⟨r.localNodeId, path⟩ : ActorPath)]? with
      | some nodeId' => ClusterActorRef.remoteActor nodeId path = .remoteActor nodeId' path
      | none => ∃ other nodeId', (if first = other then some first
          else r.remoteActors[(⟨other, path⟩ : ActorPath)]?) = some nodeId' ∧
          ClusterActorRef.remoteActor nodeId path = .remoteActor nodeId' path at hfound
  rw [hlocal, hnone] at hfound
  simp only at hfound
  split_ifs at hfound with hfirst
  · simp only [ClusterActorRef.remoteActor.injEq, and_true] at hfound
    exact hnode hfound
  · obtain ⟨other, nodeId', hother, heq⟩ := hfound
    simp only [ClusterActorRef.remoteActor.injEq, and_true] at heq
    subst heq
    split_ifs at hother with hsame
    · exact hnode (Option.some.inj hother).symm
    · exact hothers other (Ne.symm hsame) hother

/-- A response that replaces the registration behind a cached reference leaves an answer that
nothing supports, and a lookup gives it. -/
theorem exists_not_transparent (h : r.CacheSound) {a : RegistryAction A}
    (henabled : r.Enabled a) (hkept : ¬ r.Undisturbed a) :
    ∃ bs, Admissible step Enabled r (a :: bs) ∧ ¬ Admissible step Transparent r (a :: bs) := by
  cases a with
  | handleDiscoveryResponse path locations =>
      cases locations with
      | nil => exact absurd trivial hkept
      | cons first rest =>
          simp only [Undisturbed, not_forall, not_or, not_exists, not_and] at hkept
          obtain ⟨hpending, nodeId, timestamp, hnode, hreplaced, hentry, hown, hothers⟩ := hkept
          have hstep : r.step (.handleDiscoveryResponse path (first :: rest)) =
              (r.served path).enterDiscovered path first := by
            change (r.handleDiscoveryResponse path (first :: rest)).1 = _
            rw [handleDiscoveryResponse_eq h.started, if_pos hpending]
          let r' := ((r.served path).enterDiscovered path first).setCacheTtl 1
          have hdropped : ¬ r'.Possible path (.remoteActor nodeId path) :=
            not_possible_discovered h hnode hentry hown hothers
          refine ⟨[.setCacheTtl 1, .lookup path (r'.readingAt timestamp)], ?_, ?_⟩
          · refine ⟨henabled, trivial, ?_, trivial⟩
            rw [hstep]
            exact ⟨List.Perm.refl _, List.Perm.refl _⟩
          · rintro ⟨-, -, htransparent, -⟩
            rw [hstep] at htransparent
            refine hdropped (htransparent ?_ _ ?_)
            · change r.cacheEnabled = true
              by_contra hoff
              have hempty := h.disabled (by simpa using hoff)
              simp [hempty] at hentry
            · change r'.cached path timestamp = _
              have hheld : r'.lookupCache[path]? = some (.remoteActor nodeId path, timestamp) :=
                hentry
              have hlive : timestamp - timestamp < r'.ttl := by
                change timestamp - timestamp < 1 * 10 ^ 9
                omega
              simp only [cached, hheld, if_pos hlive]
  | _ => exact absurd trivial hkept

/-- As long as no discovery response replaces the only registration that a cached reference rests
on, the cache answers what the lookup steps could answer. Where one does, the run can go on to a
lookup that gives an unsupported answer. -/
theorem cache_transparent (localNodeId : NodeId) (as : List (RegistryAction A))
    (has : Admissible step Enabled (connected localNodeId) as) :
    (Admissible step Undisturbed (connected localNodeId) as →
      Admissible step Transparent (connected localNodeId) as) ∧
      ∀ before a after, as = before ++ a :: after →
        Admissible step Undisturbed (connected localNodeId) before →
        ¬ Undisturbed (run step (connected localNodeId) before) a →
        ∃ bs, Admissible step Enabled (connected localNodeId) (before ++ a :: bs) ∧
          ¬ Admissible step Transparent (connected localNodeId) (before ++ a :: bs) := by
  constructor
  · intro hkept
    refine admissible_iff_forall.mpr fun before a after heq => ?_
    subst heq
    exact (cacheSound_run (admissible_append.mp has).1 (admissible_append.mp hkept).1).transparent a
  · rintro before a after rfl hbeforeKept hkept
    obtain ⟨hbefore, hafter⟩ := admissible_append.mp has
    obtain ⟨bs, hbs, hbad⟩ := exists_not_transparent (cacheSound_run hbefore hbeforeKept) hafter.1
      hkept
    exact ⟨bs, admissible_append.mpr ⟨hbefore, hbs⟩, fun htransparent =>
      hbad (admissible_append.mp htransparent).2⟩

instance decidableEnabled [DecidableEq A] (r : ActorRegistry A) :
    (a : RegistryAction A) → Decidable (r.Enabled a)
  | .handleDiscoveryResponse _ locations => inferInstanceAs (Decidable (r.localNodeId ∉ locations))
  | .lookup _ reading =>
      inferInstanceAs (Decidable (reading.remoteOrder.Perm r.remoteActors.toList ∧
        reading.cacheOrder.Perm (r.cleanedBy reading.cleaned).lookupCache.toList))
  | .setMaxCacheSize _ order => inferInstanceAs (Decidable (order.Perm r.lookupCache.toList))
  | .registerLocal _ _ | .registerRemote _ _ | .deregisterLocal _ | .deregisterRemote _
  | .awaitDiscovery _ _ | .setCacheTtl _ | .enableCache | .disableCache | .clearCache =>
      .isTrue trivial

/-- A call waits for the actor `"a"`, which is then entered for the second node under a path of the
first one and looked up; the first node answers the discovery, and the actor is looked up again. -/
def rediscovery (first nodeId : NodeId) : List (RegistryAction ℕ) :=
  [.awaitDiscovery "a" 0, .registerRemote ⟨first, "a"⟩ nodeId,
    .lookup "a" ⟨none, 0, 0, [(⟨first, "a"⟩, nodeId)], []⟩,
    .handleDiscoveryResponse "a" [first],
    .lookup "a" ⟨none, 1, 1, [(⟨first, "a"⟩, first)], [("a", .remoteActor nodeId "a", 0)]⟩]

theorem cache_transparent_rediscovery :
    Admissible step Transparent (connected 0) (rediscovery 1 1) ∧
      (run step (connected 0) (rediscovery 1 1)).cacheHits = 1 := by
  refine ⟨(cache_transparent 0 (rediscovery 1 1) (by decide +kernel)).1 ?_, by decide +kernel⟩
  refine ⟨trivial, trivial, trivial, ?_, trivial, trivial⟩
  intro _ nodeId _ hnode hreplaced _
  have hone : (run step (connected 0) (rediscovery 1 1 |>.take 3)).remoteActors[
      (⟨1, "a"⟩ : ActorPath)]? = some 1 := by decide +kernel
  exact absurd (Option.some.inj (hreplaced.symm.trans hone)) hnode

theorem not_cache_transparent :
    ¬ ∀ (localNodeId : NodeId) (as : List (RegistryAction ℕ)),
      Admissible step Enabled (connected localNodeId) as →
      Admissible step Transparent (connected localNodeId) as := by
  intro h
  obtain ⟨-, -, -, -, hlast, -⟩ := h 0 (rediscovery 1 2) (by decide +kernel)
  obtain ⟨order, horder, hanswer⟩ :=
    hlast (by decide +kernel) (.remoteActor 2 "a") (by decide +kernel)
  have hlist : (run step (connected 0) (rediscovery 1 2 |>.take 4)).remoteActors.toList =
      [(⟨1, "a"⟩, 1)] := by decide +kernel
  obtain rfl := List.perm_singleton.mp (horder.trans (List.Perm.of_eq hlist))
  exact absurd hanswer (by decide +kernel)

end ActorRegistry

end ActixPura
