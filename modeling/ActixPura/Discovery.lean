import ActixPura.Registry
import Mathlib.Data.List.Sort

/-!
# Concurrent discoveries

`discover_actor` and `handle_discovery_response`. All calls that wait for one path share an entry of
`pending_discoveries`, the list of their senders. A call that finds no peers, or sends nothing,
sleeps and then removes the entry, and so does a call whose channel was closed; a call that times
out removes the senders nobody listens to. A response removes the entry and serves the senders in
it, or drops them when it names no location.
-/

namespace ActixPura

open Runs

/-- The receiving end of a call, `closed` when its sender was dropped without a value. -/
inductive Oneshot (A : Type*)
  | waiting
  | sent (actorRef : ClusterActorRef A)
  | closed
  deriving DecidableEq

/-- How far a call is: it has looked in the registry, entered its sender, sent its request, or
sleeps because it could not. -/
inductive DiscoverCall (A : Type*)
  | idle
  | missed (path : String)
  | entered (path : String)
  | sleeping (path : String)
  | sent (path : String)
  | finished (answer : Option (ClusterActorRef A))
  deriving DecidableEq

/-- A peer of the transport, with whether it is connected and whether a message to it can be
sent. -/
structure Peer where
  id : NodeId
  connected : Bool
  reachable : Bool

inductive DiscoverAction (A : Type*)
  | lookup (call : ℕ) (path : String) (reading : LookupReading A)
  | enter (call : ℕ)
  | request (call : ℕ) (peers : List Peer)
  | wake (call : ℕ)
  | receive (call : ℕ)
  | timeout (call : ℕ)
  | respond (path : String) (locations : List NodeId)

structure Discoveries (A : Type*) where
  registry : ActorRegistry A
  calls : ℕ → DiscoverCall A
  channels : ℕ → Oneshot A

namespace Peer

/-- Connected peers come first, then the order of their names. -/
def before (a b : Peer) : Bool :=
  if a.connected && !b.connected then true
  else if !a.connected && b.connected then false
  else decide (Uuid.toString a.id ≤ Uuid.toString b.id)

end Peer

namespace DiscoverCall

variable {A : Type*}

def isFinished : DiscoverCall A → Bool
  | .finished _ => true
  | _ => false

/-- The path of a call whose sender was entered. -/
def enteredPath : DiscoverCall A → Option String
  | .entered path | .sleeping path | .sent path => some path
  | _ => none

/-- The path of a call that wants an answer. -/
def awaitedPath : DiscoverCall A → Option String
  | .entered path | .sent path => some path
  | _ => none

end DiscoverCall

/-- Requests are sent until three were sent, or as many as there are peers. -/
def sendRequests (count : ℕ) : List Peer → ℕ → ℕ
  | [], sent => sent
  | peer :: peers, sent =>
    if peer.reachable then
      if sent + 1 ≥ 3 ∨ sent + 1 ≥ count then sent + 1 else sendRequests count peers (sent + 1)
    else sendRequests count peers sent

namespace Discoveries

variable {A : Type*}

def start (r : ActorRegistry A) : Discoveries A where
  registry := { r with pendingDiscoveries := ∅ }
  calls := fun _ => .idle
  channels := fun _ => .waiting

variable (s : Discoveries A)

def senders (path : String) : List ℕ := s.registry.pendingDiscoveries.getD path []

def set (i : ℕ) (call : DiscoverCall A) : Discoveries A :=
  { s with calls := Function.update s.calls i call }

/-- A sender is gone, with a value for a receiver that has none. -/
def resolve (resolved : List ℕ) (outcome : Oneshot A) : Discoveries A :=
  { s with channels := fun i => if i ∈ resolved then outcome else s.channels i }

/-- The whole entry is removed, and its senders are dropped. -/
def removeEntry (path : String) : Discoveries A :=
  { s.resolve (s.senders path) .closed with registry := s.registry.served path }

/-- A receiver that returned has closed its channel. -/
def retainOpen (path : String) : Discoveries A :=
  let kept := (s.senders path).filter fun i => !(s.calls i).isFinished
  { s with registry := { s.registry with pendingDiscoveries :=
      if kept = [] then s.registry.pendingDiscoveries.erase path
      else s.registry.pendingDiscoveries.insert path kept } }

/-- What is done with the peers of the transport: the requests, or the decision to sleep. -/
def requested (localNodeId : NodeId) (path : String) (peers : List Peer) : DiscoverCall A :=
  let externalPeers := peers.filter fun peer => peer.id ≠ localNodeId
  if externalPeers = [] then .sleeping path
  else
    let order := externalPeers.mergeSort Peer.before
    if sendRequests order.length order 0 = 0 then .sleeping path else .sent path

/-- The receivers of a handled response. -/
def respond (path : String) (locations : List NodeId) : Discoveries A :=
  match s.registry.handleDiscoveryResponse path locations with
  | (r, some actorRef, served) => { s.resolve served (.sent actorRef) with registry := r }
  | (r, none, _) => { s.resolve (s.senders path) .closed with registry := r }

def step (s : Discoveries A) : DiscoverAction A → Discoveries A
  | .lookup i path reading =>
    match s.calls i with
    | .idle =>
      match s.registry.lookup path reading with
      | (r, some actorRef) => { s with registry := r }.set i (.finished (some actorRef))
      | (r, none) => { s with registry := r }.set i (.missed path)
    | _ => s
  | .enter i =>
    match s.calls i with
    | .missed path =>
      if s.registry.transport = none then s.set i (.finished none)
      else { s with registry := s.registry.awaitDiscovery path i }.set i (.entered path)
    | _ => s
  | .request i peers =>
    match s.calls i with
    | .entered path => s.set i (requested s.registry.localNodeId path peers)
    | _ => s
  | .wake i =>
    match s.calls i with
    | .sleeping path => (s.removeEntry path).set i (.finished none)
    | _ => s
  | .receive i =>
    match s.calls i, s.channels i with
    | .sent _, .sent actorRef => s.set i (.finished (some actorRef))
    | .sent path, .closed => (s.removeEntry path).set i (.finished none)
    | _, _ => s
  | .timeout i =>
    match s.calls i, s.channels i with
    | .sent path, .waiting => (s.set i (.finished none)).retainOpen path
    | _, _ => s
  | .respond path locations => s.respond path locations

/-- The call that exits, or the path that is answered without a location. -/
def Fails (i : ℕ) (path : String) : DiscoverAction A → Prop
  | .wake j | .receive j | .timeout j => j ≠ i
  | .respond path' locations => path' = path ∧ locations = []
  | _ => False

/-- A call that has sent its request and not timed out has a reference after a response with a
location, and keeps its sender when another call fails or a response names no location. -/
def Independent (s : Discoveries A) (a : DiscoverAction A) : Prop :=
  ∀ i path, s.calls i = .sent path →
    (∀ first rest, a = .respond path (first :: rest) →
      ∃ nodeId, (s.step a).channels i = .sent (.remoteActor nodeId path)) ∧
    (Fails i path a → i ∈ s.senders path → i ∈ (s.step a).senders path)

/-- An entry that still holds the sender of a call that wants an answer is not removed by a call
that slept, nor answered without a location. -/
def Considerate (s : Discoveries A) : DiscoverAction A → Prop
  | .wake i => ∀ path, s.calls i = .sleeping path →
      ∀ j ∈ s.senders path, (s.calls j).awaitedPath = none
  | .respond path [] => ∀ j ∈ s.senders path, (s.calls j).awaitedPath = none
  | _ => True

/-! ## What the steps leave -/

variable {s} {path path' : String} {i : ℕ}

theorem calls_set (call : DiscoverCall A) (j : ℕ) :
    (s.set i call).calls j = if j = i then call else s.calls j := by
  by_cases hj : j = i
  · subst hj
    simp [set]
  · simp [set, hj]

@[simp] theorem senders_set (call : DiscoverCall A) :
    (s.set i call).senders path = s.senders path := rfl

theorem senders_served (s' : Discoveries A) (h : s'.registry.pendingDiscoveries =
      s.registry.pendingDiscoveries.erase path) (path' : String) :
    s'.senders path' = if path' = path then [] else s.senders path' := by
  rw [senders, h, senders, Std.ExtTreeMap.getD_eq_getD_getElem?, Std.ExtTreeMap.getElem?_erase]
  by_cases hpath : path' = path
  · simp [hpath]
  · rw [if_neg hpath, if_neg (fun heq => hpath (Std.compare_eq_iff_eq.mp heq).symm),
      ← Std.ExtTreeMap.getD_eq_getD_getElem?]

theorem senders_eq_nil (h : s.registry.pendingDiscoveries[path]? = none) : s.senders path = [] := by
  rw [senders, Std.ExtTreeMap.getD_eq_getD_getElem?, h]
  rfl

theorem lookup_registry (r : ActorRegistry A) (path : String) (reading : LookupReading A) :
    (r.lookup path reading).1.pendingDiscoveries = r.pendingDiscoveries ∧
      (r.lookup path reading).1.transport = r.transport := by
  have hcleaned : (r.cleanedBy reading.cleaned).pendingDiscoveries = r.pendingDiscoveries ∧
      (r.cleanedBy reading.cleaned).transport = r.transport := by
    cases reading.cleaned <;> exact ⟨rfl, rfl⟩
  simp only [ActorRegistry.lookup]
  split_ifs
  · split
    · exact hcleaned
    · split <;> exact hcleaned
  · exact ⟨rfl, rfl⟩

theorem calls_respond (locations : List NodeId) :
    (s.respond path locations).calls = s.calls := by
  unfold respond
  split <;> rfl

/-- A response leaves no sender of its path behind. -/
theorem respond_registry (path : String) (locations : List NodeId) (path' : String) :
    (s.respond path locations).registry.transport = s.registry.transport ∧
      (s.respond path locations).senders path' =
        if path' = path then [] else s.senders path' := by
  unfold respond ActorRegistry.handleDiscoveryResponse
  cases hpending : s.registry.pendingDiscoveries[path]? with
  | none =>
      refine ⟨rfl, ?_⟩
      change s.senders path' = _
      split_ifs with hpath
      · rw [hpath, senders_eq_nil hpending]
      · rfl
  | some waiters =>
      cases htransport : s.registry.transport with
      | none => exact ⟨htransport, senders_served _ rfl path'⟩
      | some started =>
          cases locations with
          | nil => exact ⟨htransport, senders_served _ rfl path'⟩
          | cons first rest => exact ⟨htransport, senders_served _ rfl path'⟩

/-- The value that the senders of the path give to their receivers. -/
def outcome (s : Discoveries A) (path : String) : List NodeId → Oneshot A
  | first :: _ => if s.registry.transport = none then .closed else .sent (.remoteActor first path)
  | [] => .closed

theorem channels_respond (path : String) (locations : List NodeId) (i : ℕ) :
    (s.respond path locations).channels i =
      if i ∈ s.senders path then s.outcome path locations else s.channels i := by
  unfold respond ActorRegistry.handleDiscoveryResponse
  cases hpending : s.registry.pendingDiscoveries[path]? with
  | none => simp [resolve, senders_eq_nil hpending]
  | some waiters =>
      have hsenders : s.senders path = waiters := by
        rw [senders, Std.ExtTreeMap.getD_eq_getD_getElem?, hpending]
        rfl
      cases htransport : s.registry.transport with
      | none => cases locations <;> simp [resolve, outcome, htransport]
      | some started =>
          cases locations with
          | nil => simp [resolve, outcome]
          | cons first rest => simp [resolve, outcome, htransport, hsenders]

theorem senders_retainOpen (path path' : String) : (s.retainOpen path).senders path' =
    if path' = path then (s.senders path).filter fun i => !(s.calls i).isFinished
    else s.senders path' := by
  let kept := (s.senders path).filter fun i => !(s.calls i).isFinished
  change (if kept = [] then s.registry.pendingDiscoveries.erase path
    else s.registry.pendingDiscoveries.insert path kept).getD path' [] =
      if path' = path then kept else s.senders path'
  rw [senders, Std.ExtTreeMap.getD_eq_getD_getElem?, Std.ExtTreeMap.getD_eq_getD_getElem?]
  by_cases hkept : kept = []
  · rw [if_pos hkept, Std.ExtTreeMap.getElem?_erase, hkept]
    by_cases hpath : path' = path
    · simp [hpath]
    · rw [if_neg hpath, if_neg (fun heq => hpath (Std.compare_eq_iff_eq.mp heq).symm)]
  · rw [if_neg hkept, Std.ExtTreeMap.getElem?_insert]
    by_cases hpath : path' = path
    · simp [hpath]
    · rw [if_neg hpath, if_neg (fun heq => hpath (Std.compare_eq_iff_eq.mp heq).symm)]

/-! ## Calls that want an answer keep their senders -/

structure Kept (s : Discoveries A) : Prop where
  transport : ∀ i path, (s.calls i).enteredPath = some path → s.registry.transport ≠ none
  awaited : ∀ i path, (s.calls i).awaitedPath = some path →
    (i ∈ s.senders path ∧ s.channels i = .waiting) ∨
      ∃ nodeId, s.channels i = .sent (.remoteActor nodeId path)
  owner : ∀ i path, i ∈ s.senders path →
    (s.calls i).enteredPath = some path ∨ (s.calls i).isFinished = true
  early : ∀ i, (s.calls i).enteredPath = none → (s.calls i).isFinished = false →
    s.channels i = .waiting

theorem kept_start (r : ActorRegistry A) : (start r).Kept where
  transport := fun _ _ h => by simp [start, DiscoverCall.enteredPath] at h
  awaited := fun _ _ h => by simp [start, DiscoverCall.awaitedPath] at h
  owner := fun _ _ h => by simp [start, senders] at h
  early := fun _ _ _ => rfl

theorem enteredPath_of_awaitedPath {call : DiscoverCall A} (h : call.awaitedPath = some path) :
    call.enteredPath = some path ∧ call.isFinished = false := by
  cases call <;> simp_all [DiscoverCall.awaitedPath, DiscoverCall.enteredPath,
    DiscoverCall.isFinished]

/-- A call returns. -/
theorem Kept.finish (h : s.Kept) (i : ℕ) (answer : Option (ClusterActorRef A)) :
    (s.set i (.finished answer)).Kept := by
  constructor
  · intro j path hj
    rw [calls_set] at hj
    split_ifs at hj
    · simp [DiscoverCall.enteredPath] at hj
    · exact h.transport j path hj
  · intro j path hj
    rw [calls_set] at hj
    split_ifs at hj
    · simp [DiscoverCall.awaitedPath] at hj
    · exact h.awaited j path hj
  · intro j path hj
    rw [calls_set]
    split_ifs
    · exact Or.inr rfl
    · exact h.owner j path hj
  · intro j hentered hfinished
    rw [calls_set] at hentered hfinished
    split_ifs at hentered hfinished
    · simp [DiscoverCall.isFinished] at hfinished
    · exact h.early j hentered hfinished

/-- A call goes on without an action of its own on the entry. -/
theorem Kept.same (h : s.Kept) (i : ℕ) (call : DiscoverCall A)
    (hentered : call.enteredPath = (s.calls i).enteredPath)
    (hawaited : ∀ path, call.awaitedPath = some path → (s.calls i).awaitedPath = some path)
    (hfinished : call.isFinished = (s.calls i).isFinished) : (s.set i call).Kept := by
  have hcalls (j : ℕ) : ((s.set i call).calls j).enteredPath = (s.calls j).enteredPath ∧
      ((s.set i call).calls j).isFinished = (s.calls j).isFinished := by
    rw [calls_set]
    split_ifs with hj
    · rw [hj]
      exact ⟨hentered, hfinished⟩
    · exact ⟨rfl, rfl⟩
  constructor
  · intro j path hj
    exact h.transport j path ((hcalls j).1 ▸ hj)
  · intro j path hj
    refine h.awaited j path ?_
    rw [calls_set] at hj
    split_ifs at hj with hji
    · rw [hji]
      exact hawaited path hj
    · exact hj
  · intro j path hj
    rw [(hcalls j).1, (hcalls j).2]
    exact h.owner j path hj
  · intro j hj hj'
    exact h.early j ((hcalls j).1 ▸ hj) ((hcalls j).2 ▸ hj')

/-- The entry of a path is emptied, and its senders that somebody waits for give a reference. -/
theorem Kept.emptied (h : s.Kept) {s' : Discoveries A} (value : Oneshot A)
    (hcalls : s'.calls = s.calls) (htransport : s'.registry.transport = s.registry.transport)
    (hsenders : ∀ path', s'.senders path' = if path' = path then [] else s.senders path')
    (hchannels : ∀ i, s'.channels i = if i ∈ s.senders path then value else s.channels i)
    (hvalue : ∀ i ∈ s.senders path, (s.calls i).awaitedPath = some path →
      ∃ nodeId, value = .sent (.remoteActor nodeId path)) : s'.Kept := by
  constructor
  · intro i path' hi
    rw [htransport]
    exact h.transport i path' (hcalls ▸ hi)
  · intro i path' hi
    rw [hcalls] at hi
    rw [hchannels, hsenders]
    by_cases hin : i ∈ s.senders path
    · obtain ⟨hentered, hfinished⟩ := enteredPath_of_awaitedPath hi
      rcases h.owner i path hin with howner | howner
      · obtain rfl := Option.some.inj (hentered.symm.trans howner)
        rw [if_pos hin]
        exact Or.inr (hvalue i hin hi)
      · simp [howner] at hfinished
    · rw [if_neg hin]
      rcases h.awaited i path' hi with ⟨hpending, hwaiting⟩ | hsent
      · have hpath : path' ≠ path := by
          rintro rfl
          exact hin hpending
        exact Or.inl ⟨by rwa [if_neg hpath], hwaiting⟩
      · exact Or.inr hsent
  · intro i path' hi
    rw [hsenders] at hi
    rw [hcalls]
    split_ifs at hi
    · simp at hi
    · exact h.owner i path' hi
  · intro i hentered hfinished
    rw [hcalls] at hentered hfinished
    rw [hchannels, if_neg]
    · exact h.early i hentered hfinished
    · intro hin
      rcases h.owner i path hin with howner | howner
      · simp [howner] at hentered
      · simp [howner] at hfinished

theorem Kept.removeEntry (h : s.Kept)
    (hnone : ∀ j ∈ s.senders path, (s.calls j).awaitedPath = none) : (s.removeEntry path).Kept := by
  refine h.emptied .closed rfl rfl (senders_served _ rfl) (fun _ => rfl) ?_
  intro i hi hawaited
  rw [hnone i hi] at hawaited
  exact absurd hawaited (by simp)

theorem Kept.retainOpen (h : s.Kept) (path : String) : (s.retainOpen path).Kept := by
  refine ⟨h.transport, fun i path' hi => ?_, fun i path' hi => ?_, h.early⟩
  · rcases h.awaited i path' hi with ⟨hin, hwaiting⟩ | hsent
    · refine Or.inl ⟨?_, hwaiting⟩
      rw [senders_retainOpen]
      split_ifs with hpath
      · subst hpath
        have hopen : (s.calls i).isFinished = false := (enteredPath_of_awaitedPath hi).2
        exact List.mem_filter.mpr ⟨hin, by simp [hopen]⟩
      · exact hin
    · exact Or.inr hsent
  · rw [senders_retainOpen] at hi
    split_ifs at hi with hpath
    · subst hpath
      exact h.owner i path' (List.mem_filter.mp hi).1
    · exact h.owner i path' hi

theorem Kept.lookup (h : s.Kept) (i : ℕ) (path : String) (reading : LookupReading A) :
    (s.step (.lookup i path reading)).Kept := by
  obtain ⟨hpending, htransport⟩ := lookup_registry s.registry path reading
  have hkept :
      ({ s with registry := (s.registry.lookup path reading).1 } : Discoveries A).Kept := by
    have hsenders (path' : String) : ({ s with registry := (s.registry.lookup path reading).1 } :
        Discoveries A).senders path' = s.senders path' := by
      rw [senders, hpending, senders]
    refine ⟨fun j path' hj => ?_, fun j path' hj => ?_, fun j path' hj => ?_, h.early⟩
    · rw [htransport]
      exact h.transport j path' hj
    · rw [hsenders]
      exact h.awaited j path' hj
    · rw [hsenders] at hj
      exact h.owner j path' hj
  cases hcall : s.calls i with
  | idle =>
      simp only [step, hcall]
      generalize s.registry.lookup path reading = answer at hkept ⊢
      obtain ⟨r, answer⟩ := answer
      cases answer with
      | some actorRef => exact hkept.finish i (some actorRef)
      | none =>
          exact hkept.same i (.missed path) (by simp [hcall, DiscoverCall.enteredPath])
            (by simp [hcall, DiscoverCall.awaitedPath]) (by simp [hcall, DiscoverCall.isFinished])
  | _ =>
      simp only [step, hcall]
      exact h

theorem Kept.enter (h : s.Kept) (i : ℕ) : (s.step (.enter i)).Kept := by
  cases hcall : s.calls i with
  | missed path =>
      simp only [step, hcall]
      split_ifs with htransport
      · exact h.finish i none
      · have hsenders (path' : String) : ({ s with registry := s.registry.awaitDiscovery path i } :
            Discoveries A).senders path' =
              if path' = path then s.senders path ++ [i] else s.senders path' := by
          change (s.registry.pendingDiscoveries.insert path _).getD path' [] = _
          rw [Std.ExtTreeMap.getD_insert]
          by_cases hpath : path' = path
          · simp [hpath, senders]
          · rw [if_neg hpath, if_neg (fun heq => hpath (Std.compare_eq_iff_eq.mp heq).symm)]
            rfl
        have hkept (j : ℕ) (path' : String) (hj : j ∈ s.senders path') :
            j ∈ ({ s with registry := s.registry.awaitDiscovery path i } :
              Discoveries A).senders path' := by
          rw [hsenders]
          split_ifs with hpath
          · subst hpath
            exact List.mem_append_left _ hj
          · exact hj
        constructor
        · intro j path' hj
          exact htransport
        · intro j path' hj
          rw [calls_set] at hj
          rw [senders_set]
          split_ifs at hj with hji
          · subst hji
            obtain rfl : path = path' := by simpa [DiscoverCall.awaitedPath] using hj
            refine Or.inl ⟨?_, h.early j (by simp [hcall, DiscoverCall.enteredPath])
              (by simp [hcall, DiscoverCall.isFinished])⟩
            rw [hsenders, if_pos rfl]
            simp
          · exact (h.awaited j path' hj).imp (fun hin => ⟨hkept j path' hin.1, hin.2⟩) id
        · intro j path' hj
          rw [senders_set, hsenders] at hj
          rw [calls_set]
          split_ifs with hji
          · subst hji
            split_ifs at hj with hpath
            · exact Or.inl (by rw [hpath]; rfl)
            · have howner := h.owner j path' hj
              simp [hcall, DiscoverCall.enteredPath, DiscoverCall.isFinished] at howner
          · split_ifs at hj with hpath
            · subst hpath
              refine h.owner j path' ?_
              simpa [hji] using hj
            · exact h.owner j path' hj
        · intro j hentered hfinished
          rw [calls_set] at hentered hfinished
          split_ifs at hentered hfinished
          · simp [DiscoverCall.enteredPath] at hentered
          · exact h.early j hentered hfinished
  | _ =>
      simp only [step, hcall]
      exact h

theorem requested_eq (localNodeId : NodeId) (path : String) (peers : List Peer) :
    (requested localNodeId path peers : DiscoverCall A) = .sleeping path ∨
      (requested localNodeId path peers : DiscoverCall A) = .sent path := by
  simp only [requested]
  split_ifs
  · exact Or.inl rfl
  · exact Or.inl rfl
  · exact Or.inr rfl

theorem Kept.request (h : s.Kept) (i : ℕ) (peers : List Peer) :
    (s.step (.request i peers)).Kept := by
  cases hcall : s.calls i with
  | entered path =>
      simp only [step, hcall]
      rcases requested_eq (A := A) s.registry.localNodeId path peers with heq | heq
      · rw [heq]
        exact h.same i _ (by simp [hcall, DiscoverCall.enteredPath])
          (by simp [DiscoverCall.awaitedPath]) (by simp [hcall, DiscoverCall.isFinished])
      · rw [heq]
        exact h.same i _ (by simp [hcall, DiscoverCall.enteredPath])
          (by simp [hcall, DiscoverCall.awaitedPath]) (by simp [hcall, DiscoverCall.isFinished])
  | _ =>
      simp only [step, hcall]
      exact h

theorem Kept.respond (h : s.Kept) {locations : List NodeId}
    (hkept : s.Considerate (.respond path locations)) : (s.respond path locations).Kept := by
  refine h.emptied _ (calls_respond locations) (respond_registry path locations path).1
    (fun path' => (respond_registry path locations path').2) (channels_respond path locations) ?_
  intro i hi hawaited
  cases locations with
  | nil =>
      rw [hkept i hi] at hawaited
      exact absurd hawaited (by simp)
  | cons first rest =>
      have htransport := h.transport i path (enteredPath_of_awaitedPath hawaited).1
      exact ⟨first, by rw [outcome, if_neg htransport]⟩

/-- No call that wants an answer has a closed channel. -/
theorem Kept.not_closed (h : s.Kept) (hcall : s.calls i = .sent path) : s.channels i ≠ .closed := by
  intro hclosed
  rcases h.awaited i path (by rw [hcall]; rfl) with ⟨-, hwaiting⟩ | ⟨nodeId, hsent⟩
  · exact absurd (hclosed.symm.trans hwaiting) (by simp)
  · exact absurd (hclosed.symm.trans hsent) (by simp)

theorem kept_step (h : s.Kept) {a : DiscoverAction A} (hkept : s.Considerate a) :
    (s.step a).Kept := by
  cases a with
  | lookup i path reading => exact h.lookup i path reading
  | enter i => exact h.enter i
  | request i peers => exact h.request i peers
  | wake i =>
      cases hcall : s.calls i with
      | sleeping path =>
          simp only [step, hcall]
          exact (h.removeEntry (hkept path hcall)).finish i none
      | _ =>
          simp only [step, hcall]
          exact h
  | receive i =>
      cases hcall : s.calls i with
      | sent path =>
          cases hchannel : s.channels i with
          | waiting =>
              simp only [step, hcall, hchannel]
              exact h
          | sent actorRef =>
              simp only [step, hcall, hchannel]
              exact h.finish i (some actorRef)
          | closed => exact absurd hchannel (h.not_closed hcall)
      | _ =>
          simp only [step, hcall]
          exact h
  | timeout i =>
      cases hcall : s.calls i with
      | sent path =>
          cases hchannel : s.channels i with
          | waiting =>
              simp only [step, hcall, hchannel]
              exact (h.finish i none).retainOpen path
          | _ =>
              simp only [step, hcall, hchannel]
              exact h
      | _ =>
          simp only [step, hcall]
          exact h
  | respond path locations => exact h.respond hkept

/-- A failing call or an empty response leaves the senders of the calls that want an answer. -/
theorem Kept.mem_senders (h : s.Kept) {a : DiscoverAction A} (hkept : s.Considerate a)
    (hcall : s.calls i = .sent path) (hfails : Fails i path a) (hin : i ∈ s.senders path) :
    i ∈ (s.step a).senders path := by
  have hawaited : (s.calls i).awaitedPath = some path := by rw [hcall]; rfl
  cases a with
  | lookup j path' reading => exact hfails.elim
  | enter j => exact hfails.elim
  | request j peers => exact hfails.elim
  | wake j =>
      cases hother : s.calls j with
      | sleeping path' =>
          simp only [step, hother, senders_set]
          have hpath : path ≠ path' := by
            rintro rfl
            rw [hkept path hother i hin] at hawaited
            exact absurd hawaited (by simp)
          rw [senders_served (s := s) (s.removeEntry path') rfl, if_neg hpath]
          exact hin
      | _ =>
          simp only [step, hother]
          exact hin
  | receive j =>
      cases hother : s.calls j with
      | sent path' =>
          cases hchannel : s.channels j with
          | closed => exact absurd hchannel (h.not_closed hother)
          | _ =>
              simp only [step, hother, hchannel]
              exact hin
      | _ =>
          simp only [step, hother]
          exact hin
  | timeout j =>
      cases hother : s.calls j with
      | sent path' =>
          cases hchannel : s.channels j with
          | waiting =>
              simp only [step, hother, hchannel]
              rw [senders_retainOpen]
              split_ifs with hpath
              · subst hpath
                refine List.mem_filter.mpr ⟨hin, ?_⟩
                rw [calls_set, if_neg (Ne.symm hfails), hcall]
                rfl
              · exact hin
          | _ =>
              simp only [step, hother, hchannel]
              exact hin
      | _ =>
          simp only [step, hother]
          exact hin
  | respond path' locations =>
      obtain ⟨rfl, rfl⟩ := hfails
      rw [hkept i hin] at hawaited
      exact absurd hawaited (by simp)

theorem Kept.independent (h : s.Kept) {a : DiscoverAction A} (hkept : s.Considerate a) :
    s.Independent a := by
  intro i path hcall
  refine ⟨?_, fun hfails hin => h.mem_senders hkept hcall hfails hin⟩
  rintro first rest rfl
  have hafter : (s.respond path (first :: rest)).Kept := h.respond hkept
  have hawaited : ((s.respond path (first :: rest)).calls i).awaitedPath = some path := by
    rw [calls_respond, hcall]
    rfl
  rcases hafter.awaited i path hawaited with ⟨hin, -⟩ | hsent
  · rw [(respond_registry path (first :: rest) path).2, if_pos rfl] at hin
    simp at hin
  · exact hsent

/-- As long as no entry with the sender of a call that wants an answer is removed by a call that
slept or answered without a location, the calls do not disturb each other. -/
theorem discoveries_independent (r : ActorRegistry A) (as : List (DiscoverAction A))
    (has : Admissible step Considerate (start r) as) :
    Admissible step Independent (start r) as := by
  refine admissible_iff_forall.mpr fun before a after heq => ?_
  subst heq
  obtain ⟨hbefore, hafter⟩ := admissible_append.mp has
  have hkept : (run step (start r) before).Kept :=
    invariant_run (I := Kept) (fun _ _ h hok => kept_step h hok) (kept_start r) hbefore
  exact hkept.independent hafter.1

/-- Call 0 sends its request to node 5. Call 1 finds no peers and sleeps. -/
def twoCalls : List (DiscoverAction ℕ) :=
  [.lookup 0 "a" ⟨none, 0, 0, [], []⟩, .enter 0, .request 0 [⟨5, true, true⟩],
    .lookup 1 "a" ⟨none, 0, 0, [], []⟩, .enter 1, .request 1 []]

/-- The node answers before call 1 wakes up. -/
theorem discoveries_independent_twoCalls :
    Admissible step Independent (start ((ActorRegistry.new 0).setTransport true))
      (twoCalls ++ [.respond "a" [5], .wake 1, .receive 0]) := by
  refine discoveries_independent _ _ ⟨trivial, trivial, trivial, trivial, trivial, trivial, trivial,
    ?_, trivial, trivial⟩
  intro path hpath j hj
  have hcall : (run step (start ((ActorRegistry.new 0).setTransport true))
      (twoCalls ++ [.respond "a" [5]])).calls 1 = .sleeping "a" := by decide +kernel
  obtain rfl : path = "a" := DiscoverCall.sleeping.inj (hpath.symm.trans hcall)
  have hnil : (run step (start ((ActorRegistry.new 0).setTransport true))
      (twoCalls ++ [.respond "a" [5]])).senders "a" = [] := by decide +kernel
  exact absurd (hnil ▸ hj) (by simp)

theorem not_discoveries_independent :
    ¬ ∀ (r : ActorRegistry ℕ) (as : List (DiscoverAction ℕ)),
      Admissible step Independent (start r) as := by
  intro h
  have hall := h ((ActorRegistry.new 0).setTransport true)
    (twoCalls ++ [.wake 1, .respond "a" [5]])
  obtain ⟨-, -, hrespond, -⟩ := admissible_append.mp hall
  have hcall : (run step (start ((ActorRegistry.new 0).setTransport true))
      (twoCalls ++ [.wake 1])).calls 0 = .sent "a" := by decide +kernel
  have hclosed : (run step (start ((ActorRegistry.new 0).setTransport true))
      (twoCalls ++ [.wake 1, .respond "a" [5]])).channels 0 = .closed := by decide +kernel
  obtain ⟨nodeId, hsent⟩ := (hrespond 0 "a" hcall).1 5 [] rfl
  exact absurd (hclosed.symm.trans hsent) (by simp)

end Discoveries

end ActixPura
