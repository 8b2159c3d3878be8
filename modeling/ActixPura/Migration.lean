import ActixPura.Serialization
import ActixPura.Runs

/-!
# The migration manager

`migration.rs`. The manager of a node keeps a list of migrations with their status, and looks up the
first entry of an id. Requests and responses are asked to be delivered at least once; the handlers
write the list in the same way at every delivery.

The answer of the registry, the new id and the result of sending are arguments. What is sent is
given as the message, not as the envelope around its bytes.
-/

namespace ActixPura

open Runs

inductive MigrationStatus
  | inProgress
  | completed
  | failed
  deriving DecidableEq

inductive MigrationReason
  | loadBalancing
  | nodeFailure
  | localityOptimization
  | applicationRequest

/-- The timeout in nanoseconds. -/
structure MigrationOptions where
  preserveState : Bool
  keepOriginal : Bool
  timeout : ℕ
  priority : UInt8

structure MigrationRequest where
  id : Uuid
  sourceNode : NodeId
  targetNode : NodeId
  actorPath : String
  actorType : String
  reason : MigrationReason
  options : MigrationOptions

structure MigrationResponse where
  requestId : Uuid
  accepted : Bool
  rejectionReason : Option String

inductive MigrationMessage
  | request (request : MigrationRequest)
  | response (response : MigrationResponse)

structure MigrationManager where
  localNodeId : NodeId
  transport : Bool
  activeMigrations : List (Uuid × MigrationStatus)

/-- A call that returns, with what it sends to whom. -/
structure MigrationCall (α : Type) where
  manager : MigrationManager
  sent : Option (NodeId × MigrationMessage)
  result : Except ClusterError α

def MigrationStatus.isFinal : MigrationStatus → Bool
  | .inProgress => false
  | .completed | .failed => true

/-- The first entry of an id gets a status. -/
def setStatus (id : Uuid) (status : MigrationStatus) :
    List (Uuid × MigrationStatus) → List (Uuid × MigrationStatus)
  | [] => []
  | entry :: entries =>
    if entry.1 = id then (entry.1, status) :: entries else entry :: setStatus id status entries

namespace MigrationManager

def new (localNodeId : NodeId) : MigrationManager := ⟨localNodeId, false, []⟩

variable (m : MigrationManager)

def setTransport : MigrationManager := { m with transport := true }

/-- A new manager, with or without a transport. -/
def start (localNodeId : NodeId) (transport : Bool) : MigrationManager :=
  if transport then (new localNodeId).setTransport else new localNodeId

def push (id : Uuid) : MigrationManager :=
  { m with activeMigrations := m.activeMigrations ++ [(id, .inProgress)] }

def getMigrationStatus (id : Uuid) : Option MigrationStatus :=
  (m.activeMigrations.find? fun entry => entry.1 = id).map Prod.snd

def transportNotSet : ClusterError := .transportError "Transport not set"

/-- The migration is recorded before the request is sent. -/
def migrateActor (found : Bool) (migrationId : Uuid) (sending : Except ClusterError Unit)
    (actorPath : String) (targetNode : NodeId) (reason : MigrationReason)
    (options : MigrationOptions) : MigrationCall Uuid :=
  if found then
    let request : MigrationRequest :=
      ⟨migrationId, m.localNodeId, targetNode, actorPath, "unknown", reason, options⟩
    if m.transport then
      ⟨m.push migrationId, some (targetNode, .request request), sending.map fun _ => migrationId⟩
    else ⟨m.push migrationId, none, .error transportNotSet⟩
  else ⟨m, none, .error (.actorNotFound actorPath)⟩

/-- Every request is accepted, and recorded when the response was sent. -/
def handleMigrationRequest (request : MigrationRequest) (sending : Except ClusterError Unit) :
    MigrationCall Unit :=
  let canAccept := true
  let response : MigrationResponse :=
    ⟨request.id, canAccept, if canAccept then none else some "Not enough resources"⟩
  if m.transport then
    match sending with
    | .error error => ⟨m, some (request.sourceNode, .response response), .error error⟩
    | .ok _ =>
      ⟨if canAccept then m.push request.id else m, some (request.sourceNode, .response response),
        .ok ()⟩
  else ⟨m, none, .error transportNotSet⟩

def unknownRequest (id : Uuid) : ClusterError :=
  .protocolError s!"Unknown migration request ID: {Uuid.toString id}"

/-- The status of a known migration is overwritten. -/
def update (id : Uuid) (status : MigrationStatus) : MigrationCall Unit :=
  if m.activeMigrations.any fun entry => entry.1 = id then
    ⟨{ m with activeMigrations := setStatus id status m.activeMigrations }, none, .ok ()⟩
  else ⟨m, none, .error (unknownRequest id)⟩

def handleMigrationResponse (response : MigrationResponse) : MigrationCall Unit :=
  m.update response.requestId (if response.accepted then .inProgress else .failed)

def completeMigration (requestId : Uuid) (_newActorPath : String) : MigrationCall Unit :=
  m.update requestId .completed

def failMigration (requestId : Uuid) (_reason : String) : MigrationCall Unit :=
  m.update requestId .failed

end MigrationManager

inductive MigrationAction
  | migrateActor (found : Bool) (migrationId : Uuid) (sending : Except ClusterError Unit)
      (actorPath : String) (targetNode : NodeId) (reason : MigrationReason)
      (options : MigrationOptions)
  | handleMigrationRequest (request : MigrationRequest) (sending : Except ClusterError Unit)
  | handleMigrationResponse (response : MigrationResponse)
  | completeMigration (requestId : Uuid) (newActorPath : String)
  | failMigration (requestId : Uuid) (reason : String)

namespace MigrationManager

variable {m : MigrationManager}

def step (m : MigrationManager) : MigrationAction → MigrationManager
  | .migrateActor found id sending path target reason options =>
      (m.migrateActor found id sending path target reason options).manager
  | .handleMigrationRequest request sending => (m.handleMigrationRequest request sending).manager
  | .handleMigrationResponse response => (m.handleMigrationResponse response).manager
  | .completeMigration id path => (m.completeMigration id path).manager
  | .failMigration id reason => (m.failMigration id reason).manager

def ids (m : MigrationManager) : List Uuid := m.activeMigrations.map Prod.fst

/-- A new UUID is not one that is in use. -/
def Enabled (m : MigrationManager) : MigrationAction → Prop
  | .migrateActor _ id _ _ _ _ _ => id ∉ m.ids
  | _ => True

/-- A request that is accepted is new, and what arrives for a migration that has ended agrees with
its outcome. -/
def Orderly (m : MigrationManager) : MigrationAction → Prop
  | .migrateActor _ _ _ _ _ _ _ => True
  | .handleMigrationRequest request sending =>
      m.transport = true → sending.isOk = true → request.id ∉ m.ids
  | .handleMigrationResponse response =>
      m.getMigrationStatus response.requestId ≠ some .completed ∧
        (response.accepted = true → m.getMigrationStatus response.requestId ≠ some .failed)
  | .completeMigration id _ => m.getMigrationStatus id ≠ some .failed
  | .failMigration id _ => m.getMigrationStatus id ≠ some .completed

instance decidableEnabled (m : MigrationManager) : (a : MigrationAction) → Decidable (m.Enabled a)
  | .migrateActor _ id _ _ _ _ _ => inferInstanceAs (Decidable (id ∉ m.ids))
  | .handleMigrationRequest _ _ | .handleMigrationResponse _ | .completeMigration _ _
  | .failMigration _ _ => .isTrue trivial

instance decidableOrderly (m : MigrationManager) : (a : MigrationAction) → Decidable (m.Orderly a)
  | .migrateActor _ _ _ _ _ _ _ => .isTrue trivial
  | .handleMigrationRequest request sending => inferInstanceAs
      (Decidable (m.transport = true → sending.isOk = true → request.id ∉ m.ids))
  | .handleMigrationResponse response => inferInstanceAs
      (Decidable (m.getMigrationStatus response.requestId ≠ some .completed ∧
        (response.accepted = true → m.getMigrationStatus response.requestId ≠ some .failed)))
  | .completeMigration id _ => inferInstanceAs
      (Decidable (m.getMigrationStatus id ≠ some .failed))
  | .failMigration id _ => inferInstanceAs
      (Decidable (m.getMigrationStatus id ≠ some .completed))

/-- The outcomes of one state are those of the other. -/
def Settled (m m' : MigrationManager) : Prop :=
  ∀ id status, status.isFinal = true → m.getMigrationStatus id = some status →
    m'.getMigrationStatus id = some status

theorem ids_push (id : Uuid) : (m.push id).ids = m.ids ++ [id] := by
  simp [ids, push]

theorem settled_push (id : Uuid) : Settled m (m.push id) := by
  intro id' status _ h
  obtain ⟨entry, hentry, hstatus⟩ := Option.map_eq_some_iff.mp h
  unfold getMigrationStatus push
  rw [List.find?_append, hentry]
  simpa using hstatus

theorem map_fst_setStatus (id : Uuid) (status : MigrationStatus)
    (entries : List (Uuid × MigrationStatus)) :
    (setStatus id status entries).map Prod.fst = entries.map Prod.fst := by
  induction entries with
  | nil => rfl
  | cons entry entries ih =>
      rw [setStatus]
      split_ifs
      · rfl
      · rw [List.map_cons, List.map_cons, ih]

theorem find?_setStatus (id : Uuid) (status : MigrationStatus)
    (entries : List (Uuid × MigrationStatus)) (id' : Uuid) :
    ((setStatus id status entries).find? fun entry => entry.1 = id').map Prod.snd =
      ((entries.find? fun entry => entry.1 = id').map Prod.snd).map
        fun old => if id' = id then status else old := by
  induction entries with
  | nil => rfl
  | cons entry entries ih =>
      rw [setStatus]
      by_cases hid : entry.1 = id
      · rw [if_pos hid]
        by_cases hid' : entry.1 = id'
        · have hsame : id' = id := hid'.symm.trans hid
          simp [hid', hsame]
        · have hother : id' ≠ id := fun heq => hid' (hid.trans heq.symm)
          simp only [List.find?_cons, hid', decide_false, hother, if_false]
          rw [Option.map_id']
      · rw [if_neg hid]
        by_cases hid' : entry.1 = id'
        · have hother : id' ≠ id := fun heq => hid (hid'.trans heq)
          simp [hid', hother]
        · simpa [List.find?_cons, hid'] using ih

theorem ids_update (id : Uuid) (status : MigrationStatus) :
    (m.update id status).manager.ids = m.ids := by
  unfold update
  split_ifs
  · exact map_fst_setStatus id status m.activeMigrations
  · rfl

theorem getMigrationStatus_update (id : Uuid) (status : MigrationStatus) (id' : Uuid) :
    (m.update id status).manager.getMigrationStatus id' =
      (m.getMigrationStatus id').map fun old => if id' = id then status else old := by
  unfold update
  by_cases hany : (m.activeMigrations.any fun entry => entry.1 = id) = true
  · rw [if_pos hany]
    exact find?_setStatus id status m.activeMigrations id'
  · rw [if_neg hany]
    cases hstatus : m.getMigrationStatus id' with
    | none => rfl
    | some old =>
        have hne : id' ≠ id := by
          rintro rfl
          obtain ⟨entry, hentry, -⟩ := Option.map_eq_some_iff.mp hstatus
          have hid := List.find?_some
            (p := fun entry : Uuid × MigrationStatus => decide (entry.1 = id')) hentry
          exact hany (List.any_eq_true.mpr ⟨entry, List.mem_of_find?_eq_some hentry, hid⟩)
        simp [hne]

/-- An outcome is kept exactly when what is written agrees with it. -/
theorem settled_update_iff (id : Uuid) (status : MigrationStatus) :
    Settled m (m.update id status).manager ↔
      ∀ old, old.isFinal = true → m.getMigrationStatus id = some old → old = status := by
  constructor
  · intro h old hfinal hold
    have hnew := h id old hfinal hold
    rw [getMigrationStatus_update, hold] at hnew
    simpa using hnew.symm
  · intro h id' old hfinal hold
    rw [getMigrationStatus_update, hold]
    by_cases hid : id' = id
    · subst hid
      rw [h old hfinal hold]
      simp
    · simp [hid]

/-- A step keeps the ids apart and the outcomes as they are exactly when it is orderly. -/
theorem orderly_iff (hnodup : m.ids.Nodup) {a : MigrationAction} (henabled : m.Enabled a) :
    m.Orderly a ↔ (m.step a).ids.Nodup ∧ Settled m (m.step a) := by
  have hpush {id : Uuid} : (m.push id).ids.Nodup ↔ id ∉ m.ids := by
    rw [ids_push, List.nodup_append]
    simp only [hnodup, List.nodup_singleton, List.mem_singleton, forall_eq, true_and]
    exact ⟨fun h hin => h id hin rfl, fun h other hin heq => h (heq ▸ hin)⟩
  have hself : Settled m m := fun _ _ _ h => h
  cases a with
  | migrateActor found id sending path target reason options =>
      refine iff_of_true trivial ?_
      simp only [step, migrateActor]
      split_ifs
      · exact ⟨hpush.mpr henabled, settled_push id⟩
      · exact ⟨hpush.mpr henabled, settled_push id⟩
      · exact ⟨hnodup, hself⟩
  | handleMigrationRequest request sending =>
      simp only [step, Orderly, handleMigrationRequest, if_true]
      split_ifs with htransport
      · cases sending with
        | error error => simp [Except.isOk, Except.toBool, hnodup, hself]
        | ok _ => simp [Except.isOk, Except.toBool, htransport, hpush, settled_push]
      · simp [htransport, hnodup, hself]
  | handleMigrationResponse response =>
      simp only [step, Orderly, handleMigrationResponse, ids_update, settled_update_iff, hnodup,
        true_and]
      constructor
      · rintro ⟨hcompleted, hfailed⟩ old hfinal hold
        cases old with
        | inProgress => exact Bool.noConfusion hfinal
        | completed => exact absurd hold hcompleted
        | failed =>
            cases haccepted : response.accepted with
            | false => rfl
            | true => exact absurd hold (hfailed haccepted)
      · intro h
        refine ⟨fun hold => ?_, fun haccepted hold => ?_⟩
        · have := h .completed rfl hold
          split_ifs at this
        · have := h .failed rfl hold
          rw [if_pos haccepted] at this
          exact absurd this (by simp)
  | completeMigration id path =>
      simp only [step, Orderly, completeMigration, ids_update, settled_update_iff, hnodup, true_and]
      constructor
      · intro h old hfinal hold
        cases old with
        | inProgress => exact Bool.noConfusion hfinal
        | completed => rfl
        | failed => exact absurd hold h
      · exact fun h hold => absurd (h .failed rfl hold) (by simp)
  | failMigration id reason =>
      simp only [step, Orderly, failMigration, ids_update, settled_update_iff, hnodup, true_and]
      constructor
      · intro h old hfinal hold
        cases old with
        | inProgress => exact Bool.noConfusion hfinal
        | completed => exact absurd hold h
        | failed => rfl
      · exact fun h hold => absurd (h .completed rfl hold) (by simp)

/-- No two entries of one id, and no outcome that changes later. -/
def Final (m : MigrationManager) (as : List MigrationAction) : Prop :=
  (∀ before after, as = before ++ after → (run step m before).ids.Nodup) ∧
    ∀ before between after, as = before ++ between ++ after →
      Settled (run step m before) (run step m (before ++ between))

/-- A run keeps ids apart and outcomes as they are exactly when its steps are orderly. -/
theorem migration_final (localNodeId : NodeId) (transport : Bool) (as : List MigrationAction)
    (has : Admissible step Enabled (start localNodeId transport) as) :
    Admissible step Orderly (start localNodeId transport) as ↔
      Final (start localNodeId transport) as := by
  constructor
  · intro h
    have hstart : (start localNodeId transport).ids.Nodup := by
      cases transport <;> exact List.nodup_nil
    have hnodup : ∀ before after, as = before ++ after →
        (run step (start localNodeId transport) before).ids.Nodup := by
      rintro before after rfl
      exact invariant_run (I := fun m => m.ids.Nodup)
        (fun m a hm hok => ((orderly_iff hm hok.1).mp hok.2).1) hstart
        (admissible_and.mpr ⟨(admissible_append.mp has).1, (admissible_append.mp h).1⟩)
    refine ⟨hnodup, fun before between after heq => ?_⟩
    induction between using List.reverseRecOn generalizing after with
    | nil =>
        rw [List.append_nil]
        exact fun _ _ _ hstatus => hstatus
    | append_singleton between a ih =>
        have hsplit : as = (before ++ between) ++ a :: after := by simp [heq]
        have hold := ih (a :: after) hsplit
        have horderly := admissible_iff_forall.mp h _ a after hsplit
        have henabled := admissible_iff_forall.mp has _ a after hsplit
        have hnew := ((orderly_iff (hnodup _ (a :: after) hsplit) henabled).mp horderly).2
        rw [← List.append_assoc, run_append]
        exact fun id status hfinal hstatus =>
          hnew id status hfinal (hold id status hfinal hstatus)
  · rintro ⟨hnodup, hsettled⟩
    refine admissible_iff_forall.mpr fun before a after heq => ?_
    have henabled := admissible_iff_forall.mp has before a after heq
    refine (orderly_iff (hnodup before (a :: after) heq) henabled).mpr ⟨?_, ?_⟩
    · have hnext := hnodup (before ++ [a]) after (by simp [heq])
      rwa [run_append] at hnext
    · have hnext := hsettled before [a] after (by simp [heq])
      rwa [run_append] at hnext

def sampleRequest : MigrationRequest :=
  ⟨5, 1, 2, "a", "unknown", .loadBalancing, ⟨true, true, 30000000000, 5⟩⟩

/-- A migration that this node asks for is accepted and completed, and one that it is asked for
fails. -/
theorem migration_final_outcomes :
    Final (start 2 true)
      [.migrateActor true 4 (.ok ()) "b" 1 .nodeFailure sampleRequest.options,
        .handleMigrationRequest sampleRequest (.ok ()), .handleMigrationResponse ⟨4, true, none⟩,
        .completeMigration 4 "b", .failMigration 5 "gone"] :=
  (migration_final 2 true _ (by decide)).mp (by decide)

/-- A request is delivered again after its migration was completed. -/
theorem not_migration_final :
    ¬ ∀ (localNodeId : NodeId) (transport : Bool) (as : List MigrationAction),
      Admissible step Enabled (start localNodeId transport) as →
      Final (start localNodeId transport) as := by
  intro h
  have hfinal := h 2 true [.handleMigrationRequest sampleRequest (.ok ()), .completeMigration 5 "a",
    .handleMigrationRequest sampleRequest (.ok ())] (by decide)
  have hnodup := hfinal.1 _ [] (List.append_nil _).symm
  exact absurd hnodup (by decide)

/-! ## Failed calls -/

/-- A call that returns an error leaves the migrations as they were. -/
def LeavesNoTrace {α : Type} (m : MigrationManager) (call : MigrationCall α) : Prop :=
  (∃ error, call.result = .error error) → call.manager.activeMigrations = m.activeMigrations

theorem activeMigrations_push_ne (id : Uuid) :
    (m.push id).activeMigrations ≠ m.activeMigrations := fun h => by
  have hlength := congrArg List.length h
  simp [push] at hlength

theorem migrateActor_leavesNoTrace_iff (found : Bool) (migrationId : Uuid)
    (sending : Except ClusterError Unit) (actorPath : String) (targetNode : NodeId)
    (reason : MigrationReason) (options : MigrationOptions) :
    m.LeavesNoTrace (m.migrateActor found migrationId sending actorPath targetNode reason options) ↔
      found = false ∨ (m.transport = true ∧ sending = .ok ()) := by
  unfold LeavesNoTrace migrateActor
  cases found with
  | false => exact iff_of_true (fun _ => rfl) (Or.inl rfl)
  | true =>
      by_cases htransport : m.transport = true
      · cases sending with
        | error error =>
            simp only [if_true, if_pos htransport]
            refine iff_of_false (fun h => activeMigrations_push_ne migrationId (h ⟨error, rfl⟩)) ?_
            simp
        | ok sent =>
            simp only [if_true, if_pos htransport]
            refine iff_of_true (fun h => ?_) (by simp [htransport])
            obtain ⟨error, h⟩ := h
            exact absurd h (by simp [Except.map])
      · simp only [if_true, if_neg htransport]
        refine iff_of_false
          (fun h => activeMigrations_push_ne migrationId (h ⟨transportNotSet, rfl⟩)) ?_
        simp [htransport]

theorem handleMigrationRequest_leavesNoTrace (request : MigrationRequest)
    (sending : Except ClusterError Unit) :
    m.LeavesNoTrace (m.handleMigrationRequest request sending) := by
  rintro ⟨error, h⟩
  unfold handleMigrationRequest at h ⊢
  by_cases htransport : m.transport = true
  · cases sending with
    | error error => simp only [if_pos htransport]
    | ok sent => exact absurd h (by simp [htransport])
  · simp only [if_neg htransport]

/-- A request that is not accepted leaves nothing behind. A migration that fails to start does so
only if the actor is not there, as it is recorded before anything else can fail. -/
theorem leavesNoTrace_iff (m : MigrationManager) :
    (∀ (found : Bool) (migrationId : Uuid) (sending : Except ClusterError Unit)
      (actorPath : String) (targetNode : NodeId) (reason : MigrationReason)
      (options : MigrationOptions),
      m.LeavesNoTrace
          (m.migrateActor found migrationId sending actorPath targetNode reason options) ↔
        found = false ∨ (m.transport = true ∧ sending = .ok ())) ∧
    ∀ (request : MigrationRequest) (sending : Except ClusterError Unit),
      m.LeavesNoTrace (m.handleMigrationRequest request sending) :=
  ⟨migrateActor_leavesNoTrace_iff, handleMigrationRequest_leavesNoTrace⟩

/-- A migration that is started without a transport is still in progress after the error. -/
theorem not_leavesNoTrace :
    ¬ (start 2 false).LeavesNoTrace
        ((start 2 false).migrateActor true 4 (.ok ()) "b" 1 .nodeFailure sampleRequest.options) ∧
      ((start 2 false).migrateActor true 4 (.ok ()) "b" 1 .nodeFailure
        sampleRequest.options).manager.activeMigrations = [(4, .inProgress)] :=
  ⟨fun h => absurd (h ⟨transportNotSet, rfl⟩) (by decide), rfl⟩

end MigrationManager

end ActixPura
