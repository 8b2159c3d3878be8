import ActixPura.Serialization
import ActixPura.Runs

/-!
# The actor registry

`registry.rs`. A node knows its own actors by their paths and other nodes' actors by paths with a
node, and it remembers what it looked up in a cache that is keyed by the path alone. The locks
protect one table each; the functions here are what is done between two acquisitions, and `lookup`
puts them together for a caller that is alone.

The order in which a hash map is gone through is an argument, and so are the readings of the clock,
in nanoseconds. `transport` says whether a transport was set and whether it is started.
-/

namespace ActixPura

open Std (ExtTreeMap)

structure ActorPath where
  nodeId : NodeId
  path : String
  deriving DecidableEq

namespace ActorPath

def cmp : ActorPath → ActorPath → Ordering :=
  compareLex (compareOn ActorPath.nodeId) (compareOn ActorPath.path)

instance transCmp : Std.TransCmp cmp := inferInstanceAs (Std.TransCmp (compareLex _ _))

theorem cmp_eq_eq {p q : ActorPath} : cmp p q = .eq ↔ p = q := by
  obtain ⟨node, path⟩ := p
  obtain ⟨node', path'⟩ := q
  simp [cmp, compareLex_eq_eq, compareOn]

instance lawfulEqCmp : Std.LawfulEqCmp cmp where
  eq_of_compare := cmp_eq_eq.mp

end ActorPath

/-- A reference to an actor of this node, or one that sends to another node. -/
inductive ClusterActorRef (A : Type*)
  | localActor (actor : A)
  | remoteActor (nodeId : NodeId) (path : String)
  deriving DecidableEq

/-- A discovery is known by the number of the call that waits for it. -/
structure ActorRegistry (A : Type*) where
  localNodeId : NodeId
  localActors : ExtTreeMap String A compare
  remoteActors : ExtTreeMap ActorPath NodeId ActorPath.cmp
  transport : Option Bool
  pendingDiscoveries : ExtTreeMap String (List ℕ) compare
  lookupCache : ExtTreeMap String (ClusterActorRef A × ℕ) compare
  cacheTtl : ℕ
  cacheHits : ℕ
  cacheMisses : ℕ
  maxCacheSize : ℕ
  cacheEnabled : Bool

/-- What a lookup reads from outside: the clock, whether the cache is cleaned, and the orders of the
two maps. -/
structure LookupReading (A : Type*) where
  cleaned : Option ℕ
  now : ℕ
  insertedAt : ℕ
  remoteOrder : List (ActorPath × NodeId)
  cacheOrder : List (String × ClusterActorRef A × ℕ)

namespace ActorRegistry

variable {A : Type*}

def new (localNodeId : NodeId) : ActorRegistry A where
  localNodeId := localNodeId
  localActors := ∅
  remoteActors := ∅
  transport := none
  pendingDiscoveries := ∅
  lookupCache := ∅
  cacheTtl := 60
  cacheHits := 0
  cacheMisses := 0
  maxCacheSize := 1000
  cacheEnabled := true

variable (r : ActorRegistry A)

def setTransport (started : Bool) : ActorRegistry A := { r with transport := some started }

def setCacheTtl (ttl : ℕ) : ActorRegistry A := { r with cacheTtl := ttl }

/-- The entries that are kept are the first of the sorted ones, which are the oldest. -/
def setMaxCacheSize (maxSize : ℕ) (order : List (String × ClusterActorRef A × ℕ)) :
    ActorRegistry A :=
  let kept := (order.insertionSort fun e e' => e.2.2 ≤ e'.2.2).take maxSize
  { r with
    maxCacheSize := maxSize
    lookupCache :=
      if maxSize > 0 ∧ r.lookupCache.size > maxSize then
        kept.foldl (fun cache e => cache.insert e.1 e.2) ∅
      else r.lookupCache }

def enableCache : ActorRegistry A := { r with cacheEnabled := true }

def disableCache : ActorRegistry A := { r with cacheEnabled := false, lookupCache := ∅ }

def clearCache : ActorRegistry A :=
  { r with lookupCache := ∅, cacheHits := 0, cacheMisses := 0 }

def ttl : ℕ := r.cacheTtl * 10 ^ 9

def cleanCache (now : ℕ) : ActorRegistry A :=
  { r with lookupCache := r.lookupCache.filter fun _ e => now - e.2 < r.ttl }

def registerLocal (path : String) (actor : A) : Except ClusterError (ActorRegistry A) :=
  if path ∈ r.localActors then .error (.actorAlreadyRegistered path)
  else .ok { r with
    localActors := r.localActors.insert path actor
    lookupCache := r.lookupCache.erase path }

def registerRemote (path : ActorPath) (nodeId : NodeId) : ActorRegistry A :=
  { r with
    remoteActors := r.remoteActors.insert path nodeId
    lookupCache := r.lookupCache.erase path.path }

def deregisterLocal (path : String) : Except ClusterError (ActorRegistry A) :=
  if path ∈ r.localActors then
    .ok { r with
      localActors := r.localActors.erase path
      lookupCache := r.lookupCache.erase path }
  else .error (.actorNotFound path)

def deregisterRemote (path : ActorPath) : Except ClusterError (ActorRegistry A) :=
  if path ∈ r.remoteActors then
    .ok { r with
      remoteActors := r.remoteActors.erase path
      lookupCache := r.lookupCache.erase path.path }
  else .error (.actorNotFound path.path)

/-- The answer of the cache, when it is recent enough. -/
def cached (path : String) (now : ℕ) : Option (ClusterActorRef A) :=
  match r.lookupCache[path]? with
  | none => none
  | some (actorRef, timestamp) => if now - timestamp < r.ttl then some actorRef else none

def hit : ActorRegistry A := { r with cacheHits := r.cacheHits + 1 }

def miss : ActorRegistry A := { r with cacheMisses := r.cacheMisses + 1 }

/-- First with the node of this registry, then with any node. -/
def findRemote (path : String) (order : List (ActorPath × NodeId)) : Option (ClusterActorRef A) :=
  match r.remoteActors[(⟨r.localNodeId, path⟩ : ActorPath)]?, r.transport with
  | some nodeId, some started => if started then some (.remoteActor nodeId path) else none
  | _, _ =>
    match order.find? fun e => e.1.path = path with
    | none => none
    | some (_, nodeId) =>
      match r.transport with
      | some true => some (.remoteActor nodeId path)
      | _ => none

/-- The steps of a lookup without the cache. -/
def uncached (path : String) (order : List (ActorPath × NodeId)) : Option (ClusterActorRef A) :=
  match r.localActors[path]? with
  | some actor => some (.localActor actor)
  | none => r.findRemote path order

/-- When the cache is full, its oldest entry makes room. -/
def cacheInsert (path : String) (actorRef : ClusterActorRef A) (now : ℕ)
    (order : List (String × ClusterActorRef A × ℕ)) : ActorRegistry A :=
  let room :=
    if r.maxCacheSize > 0 ∧ r.lookupCache.size ≥ r.maxCacheSize then
      match order.argmin fun e => e.2.2 with
      | some oldest => r.lookupCache.erase oldest.1
      | none => r.lookupCache
    else r.lookupCache
  { r with lookupCache := room.insert path (actorRef, now) }

/-- The registry after the optional cleaning of the cache. -/
def cleanedBy (cleaned : Option ℕ) : ActorRegistry A :=
  match cleaned with
  | some now => r.cleanCache now
  | none => r

def lookup (path : String) (reading : LookupReading A) :
    ActorRegistry A × Option (ClusterActorRef A) :=
  if r.cacheEnabled then
    let r := r.cleanedBy reading.cleaned
    match r.cached path reading.now with
    | some actorRef => (r.hit, some actorRef)
    | none =>
      match r.miss.uncached path reading.remoteOrder with
      | some actorRef =>
        (r.miss.cacheInsert path actorRef reading.insertedAt reading.cacheOrder, some actorRef)
      | none => (r.miss, none)
  else (r, r.uncached path reading.remoteOrder)

/-- `discover_actor` enters a call that waits. -/
def awaitDiscovery (path : String) (waiter : ℕ) : ActorRegistry A :=
  { r with pendingDiscoveries :=
      r.pendingDiscoveries.insert path (r.pendingDiscoveries.getD path [] ++ [waiter]) }

def enterDiscovered (path : String) (location : NodeId) : ActorRegistry A :=
  { r with remoteActors := r.remoteActors.insert ⟨location, path⟩ location }

/-- No call waits for the path any longer. -/
def served (path : String) : ActorRegistry A :=
  { r with pendingDiscoveries := r.pendingDiscoveries.erase path }

/-- The answer, and the calls that get it. -/
def handleDiscoveryResponse (path : String) (locations : List NodeId) :
    ActorRegistry A × Option (ClusterActorRef A) × List ℕ :=
  match r.pendingDiscoveries[path]? with
  | none => (r, none, [])
  | some senders =>
    match r.transport, locations with
    | some _, first :: _ =>
      ((r.served path).enterDiscovered path first, some (.remoteActor first path), senders)
    | _, _ => (r.served path, none, [])

/-! ## What the cache holds -/

theorem getElem?_erase_some {V : Type*} {m : Std.ExtTreeMap String V compare} {k path : String}
    {v : V} (h : (m.erase k)[path]? = some v) : k ≠ path ∧ m[path]? = some v := by
  rw [Std.ExtTreeMap.getElem?_erase] at h
  split_ifs at h with hk
  exact ⟨fun heq => hk (Std.compare_eq_iff_eq.mpr heq), h⟩

section Cache

variable {r} {path path' : String} {actorRef actorRef' : ClusterActorRef A}

/-- Cleaning only drops entries. -/
theorem getElem?_cleanedBy {cleaned : Option ℕ} {entry : ClusterActorRef A × ℕ}
    (h : (r.cleanedBy cleaned).lookupCache[path]? = some entry) :
    r.lookupCache[path]? = some entry := by
  cases cleaned with
  | none => exact h
  | some now =>
      change (r.lookupCache.filter _)[path]? = some entry at h
      rw [Std.ExtTreeMap.getElem?_filter'] at h
      exact (Option.filter_eq_some_iff.mp h).1

theorem getElem?_cacheInsert {now timestamp : ℕ} {order : List (String × ClusterActorRef A × ℕ)}
    (h : (r.cacheInsert path actorRef now order).lookupCache[path']? =
      some (actorRef', timestamp)) :
    (path = path' ∧ actorRef = actorRef') ∨
      r.lookupCache[path']? = some (actorRef', timestamp) := by
  simp only [cacheInsert, Std.ExtTreeMap.getElem?_insert, Std.compare_eq_iff_eq] at h
  split_ifs at h with hpath hfull
  · exact Or.inl ⟨hpath, (Prod.mk.inj (Option.some.inj h)).1⟩
  · cases hoption : order.argmin fun e => e.2.2 with
    | none =>
        rw [hoption] at h
        exact Or.inr h
    | some oldest =>
        rw [hoption] at h
        exact Or.inr (getElem?_erase_some h).2
  · exact Or.inr h

theorem exists_of_cached {now : ℕ} (h : r.cached path now = some actorRef) :
    ∃ timestamp, r.lookupCache[path]? = some (actorRef, timestamp) := by
  unfold cached at h
  cases hentry : r.lookupCache[path]? with
  | none => simp [hentry] at h
  | some entry =>
      obtain ⟨actorRef', timestamp⟩ := entry
      simp only [hentry, Option.ite_none_right_eq_some, Option.some.injEq] at h
      exact ⟨timestamp, by rw [h.2]⟩

end Cache

end ActorRegistry

end ActixPura
