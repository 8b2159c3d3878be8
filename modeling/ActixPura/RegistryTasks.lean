import ActixPura.Registry
import ActixPura.Locks

/-!
# Concurrent calls of the registry

`register_local` and `deregister_local` keep the lock of the local actors while they drop the entry
of the cache. A lookup that finds a local actor copies the reference, gives the lock up and writes
the cache later; one that finds none keeps the lock for reading until it returns. An action of a
call is what it does between two acquisitions; the counters of hits and misses are not read by any
of them.
-/

namespace ActixPura

open Runs

inductive RegistryCall (A : Type*)
  | registerLocal (path : String) (actor : A)
  | deregisterLocal (path : String)
  | lookup (path : String)

/-- How far a call is: `registering` and `deregistering` hold the lock for writing, `searchRemote`
and `writeRemote` for reading. -/
inductive RegistryTask (A : Type*)
  | idle
  | called (call : RegistryCall A)
  | registering (path : String)
  | deregistering (path : String) (actor : A)
  | checkCache (path : String)
  | countMiss (path : String)
  | readLocal (path : String)
  | writeCache (path : String) (actor : A)
  | searchRemote (path : String)
  | writeRemote (path : String) (actorRef : ClusterActorRef A)
  | finished

/-- `registered` is the insertion, `deregistered` the return of a successful call, `started` and
`returned` are of lookups. -/
inductive RegistryEvent (A : Type*)
  | registered (path : String) (actor : A)
  | deregistered (path : String) (actor : A)
  | failed (task : ℕ) (error : ClusterError)
  | started (task : ℕ) (path : String)
  | returned (task : ℕ) (answer : Option (ClusterActorRef A))
  deriving DecidableEq

inductive RegistryTaskAction (A : Type*)
  | start (task : ℕ) (call : RegistryCall A)
  | advance (task : ℕ) (reading : LookupReading A)

structure RegistryTasks (A : Type*) where
  registry : ActorRegistry A
  localLock : RwLock
  tasks : ℕ → RegistryTask A
  log : List (RegistryEvent A)

namespace ActorRegistry

variable {A : Type*} (r : ActorRegistry A)

def insertLocal (path : String) (actor : A) : ActorRegistry A :=
  { r with localActors := r.localActors.insert path actor }

def removeLocal (path : String) : ActorRegistry A :=
  { r with localActors := r.localActors.erase path }

/-- The entry of the cache is dropped. -/
def invalidate (path : String) : ActorRegistry A :=
  { r with lookupCache := r.lookupCache.erase path }

theorem registerLocal_eq (path : String) (actor : A) : r.registerLocal path actor =
    if path ∈ r.localActors then .error (.actorAlreadyRegistered path)
    else .ok ((r.insertLocal path actor).invalidate path) := rfl

theorem deregisterLocal_eq (path : String) : r.deregisterLocal path =
    if path ∈ r.localActors then .ok ((r.removeLocal path).invalidate path)
    else .error (.actorNotFound path) := rfl

end ActorRegistry

namespace RegistryTask

variable {A : Type*}

def writes : RegistryTask A → Bool
  | .registering _ | .deregistering _ _ => true
  | _ => false

def isIdle : RegistryTask A → Bool
  | .idle => true
  | _ => false

/-- The next section begins with the acquisition of the lock for writing. -/
def acquiresWrite : RegistryTask A → Bool
  | .called (.registerLocal _ _) | .called (.deregisterLocal _) => true
  | _ => false

/-- The path whose actor the next section removes. -/
def deregisters : RegistryTask A → Option String
  | .called (.deregisterLocal path) => some path
  | _ => none

def acquiresRead : RegistryTask A → Bool
  | .readLocal _ => true
  | _ => false

end RegistryTask

namespace RegistryTasks

variable {A : Type*}

/-- No local actor is registered and nothing was looked up. -/
def start (r : ActorRegistry A) : RegistryTasks A where
  registry := { r with localActors := ∅, lookupCache := ∅ }
  localLock := .free
  tasks := fun _ => .idle
  log := []

variable (s : RegistryTasks A)

def proceed (i : ℕ) (registry : ActorRegistry A) (lock : RwLock) (task : RegistryTask A)
    (events : List (RegistryEvent A)) : RegistryTasks A where
  registry := registry
  localLock := lock
  tasks := Function.update s.tasks i task
  log := s.log ++ events

/-- The first section of a call. -/
def enter (i : ℕ) (reading : LookupReading A) (call : RegistryCall A) : RegistryTasks A :=
  let r := s.registry
  let lock := s.localLock
  match call with
  | .registerLocal path actor =>
    if path ∈ r.localActors then
      s.proceed i r lock .finished [.failed i (.actorAlreadyRegistered path)]
    else
      s.proceed i (r.insertLocal path actor) (lock.write i) (.registering path)
        [.registered path actor]
  | .deregisterLocal path =>
    match r.localActors[path]? with
    | none => s.proceed i r lock .finished [.failed i (.actorNotFound path)]
    | some actor => s.proceed i (r.removeLocal path) (lock.write i) (.deregistering path actor) []
  | .lookup path =>
    if r.cacheEnabled then s.proceed i (r.cleanedBy reading.cleaned) lock (.checkCache path) []
    else s.proceed i r lock (.readLocal path) []

/-- The next section of a call. -/
def advance (i : ℕ) (reading : LookupReading A) : RegistryTasks A :=
  let r := s.registry
  let lock := s.localLock
  match s.tasks i with
  | .idle | .finished => s
  | .called call => s.enter i reading call
  | .registering path => s.proceed i (r.invalidate path) lock.releaseWrite .finished []
  | .deregistering path actor =>
    s.proceed i (r.invalidate path) lock.releaseWrite .finished [.deregistered path actor]
  | .checkCache path =>
    match r.cached path reading.now with
    | some actorRef => s.proceed i r.hit lock .finished [.returned i (some actorRef)]
    | none => s.proceed i r lock (.countMiss path) []
  | .countMiss path => s.proceed i r.miss lock (.readLocal path) []
  | .readLocal path =>
    match r.localActors[path]? with
    | some actor =>
      if r.cacheEnabled then s.proceed i r lock (.writeCache path actor) []
      else s.proceed i r lock .finished [.returned i (some (.localActor actor))]
    | none => s.proceed i r (lock.read i) (.searchRemote path) []
  | .writeCache path actor =>
    s.proceed i (r.cacheInsert path (.localActor actor) reading.insertedAt reading.cacheOrder) lock
      .finished [.returned i (some (.localActor actor))]
  | .searchRemote path =>
    match r.findRemote path reading.remoteOrder with
    | some actorRef =>
      if r.cacheEnabled then s.proceed i r lock (.writeRemote path actorRef) []
      else s.proceed i r (lock.releaseRead i) .finished [.returned i (some actorRef)]
    | none => s.proceed i r (lock.releaseRead i) .finished [.returned i none]
  | .writeRemote path actorRef =>
    s.proceed i (r.cacheInsert path actorRef reading.insertedAt reading.cacheOrder)
      (lock.releaseRead i) .finished [.returned i (some actorRef)]

def step (s : RegistryTasks A) : RegistryTaskAction A → RegistryTasks A
  | .start i (.lookup path) =>
      s.proceed i s.registry s.localLock (.called (.lookup path)) [.started i path]
  | .start i call => s.proceed i s.registry s.localLock (.called call) []
  | .advance i reading => s.advance i reading

/-- A call has a number of its own, and the locks it acquires are to be had. -/
def Enabled (s : RegistryTasks A) : RegistryTaskAction A → Prop
  | .start i _ => (s.tasks i).isIdle = true
  | .advance i _ => ((s.tasks i).acquiresWrite = true → s.localLock.CanWrite) ∧
      ((s.tasks i).acquiresRead = true → s.localLock.CanRead)

instance decidableEnabled (s : RegistryTasks A) :
    (a : RegistryTaskAction A) → Decidable (s.Enabled a)
  | .start i _ => inferInstanceAs (Decidable ((s.tasks i).isIdle = true))
  | .advance i _ => inferInstanceAs (Decidable
      (((s.tasks i).acquiresWrite = true → s.localLock.CanWrite) ∧
        ((s.tasks i).acquiresRead = true → s.localLock.CanRead)))

/-- No actor is deregistered while a lookup of its path has a copy that it has still to enter in the
cache. -/
def Undisturbed (s : RegistryTasks A) : RegistryTaskAction A → Prop
  | .advance i _ => ∀ path, (s.tasks i).deregisters = some path →
      ∀ j actor, s.tasks j ≠ .writeCache path actor
  | _ => True

/-- An actor that a lookup returns is registered again if the lookup was started after its
deregistration. -/
def Fresh (log : List (RegistryEvent A)) : Prop :=
  ∀ l₀ l₁ l₂ l₃ path actor i, log = l₀ ++ RegistryEvent.deregistered path actor ::
    (l₁ ++ RegistryEvent.started i path ::
      (l₂ ++ RegistryEvent.returned i (some (.localActor actor)) :: l₃)) →
    .registered path actor ∈ l₁ ++ l₂

/-- Every deregistration is followed by a registration. -/
def Live (log : List (RegistryEvent A)) (path : String) (actor : A) : Prop :=
  ∀ before after, log = before ++ .deregistered path actor :: after →
    .registered path actor ∈ after

end RegistryTasks

end ActixPura
