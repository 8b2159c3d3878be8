import ActixPura.Bincode
import ActixPura.Locks
import ActixPura.Runs

/-!
# The consensus actor

`consensus.rs`. A command is given the next index, applied to the state and stored in the log. Its
handler is spawned, so that handlers of several commands run at the same time on clones that share
four locked values; each keeps the lock of the next index from the moment it reads the index until
it returns. The other three locks are acquired under this one, and a section of a handler reaches
from one acquisition to the next.

The command is serialized and read back, which fails for a node with metadata. Indices are
unbounded: the log keeps an entry for each of them.
-/

namespace ActixPura

open Runs Codec
open Std (ExtTreeMap)

inductive ConsensusCommand
  | addNode (info : NodeInfo)
  | removeNode (id : NodeId)
  | updateNodeStatus (id : NodeId) (status : NodeStatus)
  | registerActor (actorPath : String) (nodeId : NodeId)
  | custom (data : Bytes)

structure ConsensusResponse where
  success : Bool
  message : Option String
  data : Option Bytes

structure ConsensusState where
  nodes : ExtTreeMap NodeId NodeInfo compare
  actorRegistrations : ExtTreeMap String NodeId compare
  lastAppliedIndex : ℕ

structure ConsensusLogEntry where
  index : ℕ
  term : ℕ
  payload : Option Bytes

def Bincode.consensusCommand : Codec ConsensusCommand := tagged
  (fun
    | .addNode _ => 0
    | .removeNode _ => 1
    | .updateNodeStatus _ _ => 2
    | .registerActor _ _ => 3
    | .custom _ => 4)
  (fun
    | .addNode info => Bincode.nodeInfo.encode info
    | .removeNode id => Bincode.uuid.encode id
    | .updateNodeStatus id status => (Bincode.uuid.pair Bincode.nodeStatus).encode (id, status)
    | .registerActor path id => (string.pair Bincode.uuid).encode (path, id)
    | .custom data => bytes.encode data)
  fun
    | 0 => variant Bincode.nodeInfo .addNode
    | 1 => variant Bincode.uuid .removeNode
    | 2 => variant (Bincode.uuid.pair Bincode.nodeStatus) fun p => .updateNodeStatus p.1 p.2
    | 3 => variant (string.pair Bincode.uuid) fun p => .registerActor p.1 p.2
    | 4 => variant bytes .custom
    | _ => fun _ => none

namespace ConsensusState

def empty : ConsensusState := ⟨∅, ∅, 0⟩

variable (state : ConsensusState)

def applyCommand : ConsensusCommand → ConsensusState
  | .addNode info => { state with nodes := state.nodes.insert info.id info }
  | .removeNode id => { state with nodes := state.nodes.erase id }
  | .updateNodeStatus id status =>
    match state.nodes[id]? with
    | some info => { state with nodes := state.nodes.insert id { info with status := status } }
    | none => state
  | .registerActor path id =>
    { state with actorRegistrations := state.actorRegistrations.insert path id }
  | .custom _ => state

def applied (command : ConsensusCommand) (index : ℕ) : ConsensusState :=
  { state.applyCommand command with lastAppliedIndex := index }

end ConsensusState

/-- What the cluster agrees on: the record of each node and the node of each actor. -/
structure Directory where
  node : NodeId → Option NodeInfo
  actor : String → Option NodeId

namespace Directory

def empty : Directory := ⟨fun _ => none, fun _ => none⟩

/-- A command changes the entry that it names and no other. -/
def apply (d : Directory) : ConsensusCommand → Directory
  | .addNode info => { d with node := Function.update d.node info.id (some info) }
  | .removeNode id => { d with node := Function.update d.node id none }
  | .updateNodeStatus id status =>
    let updated := (d.node id).map fun info => { info with status := status }
    { d with node := Function.update d.node id updated }
  | .registerActor path id => { d with actor := Function.update d.actor path (some id) }
  | .custom _ => d

end Directory

namespace ConsensusState

def directory (state : ConsensusState) : Directory where
  node id := state.nodes[id]?
  actor path := state.actorRegistrations[path]?

theorem directory_empty : empty.directory = .empty := by
  simp [directory, empty, Directory.empty]

theorem getElem?_insert_eq_update {K V : Type} [Ord K] [Std.TransOrd K] [Std.LawfulEqOrd K]
    [DecidableEq K] (m : ExtTreeMap K V compare) (k : K) (v : V) :
    (fun k' => (m.insert k v)[k']?) = Function.update (fun k' => m[k']?) k (some v) := by
  funext k'
  simp only [ExtTreeMap.getElem?_insert, Function.update_apply, Std.compare_eq_iff_eq]
  simp only [eq_comm]

theorem getElem?_erase_eq_update {K V : Type} [Ord K] [Std.TransOrd K] [Std.LawfulEqOrd K]
    [DecidableEq K] (m : ExtTreeMap K V compare) (k : K) :
    (fun k' => (m.erase k)[k']?) = Function.update (fun k' => m[k']?) k none := by
  funext k'
  simp only [ExtTreeMap.getElem?_erase, Function.update_apply, Std.compare_eq_iff_eq]
  simp only [eq_comm]

/-- The maps of the state after a command are the directory after it. -/
theorem directory_applyCommand (state : ConsensusState) (command : ConsensusCommand) :
    (state.applyCommand command).directory = state.directory.apply command := by
  cases command with
  | addNode info =>
      simp only [applyCommand, directory, Directory.apply, getElem?_insert_eq_update]
  | removeNode id =>
      simp only [applyCommand, directory, Directory.apply, getElem?_erase_eq_update]
  | updateNodeStatus id status =>
      cases hnode : state.nodes[id]? with
      | none =>
          simp only [applyCommand, directory, Directory.apply, hnode, Option.map_none]
          rw [← hnode, Function.update_eq_self]
      | some info =>
          simp only [applyCommand, directory, Directory.apply, hnode, Option.map_some,
            getElem?_insert_eq_update]
  | registerActor path id =>
      simp only [applyCommand, directory, Directory.apply, getElem?_insert_eq_update]
  | custom data => rfl

theorem directory_applied (state : ConsensusState) (command : ConsensusCommand) (index : ℕ) :
    (state.applied command index).directory = state.directory.apply command :=
  directory_applyCommand state command

end ConsensusState

/-- The command of an entry, as it is read back. -/
def ConsensusLogEntry.command (entry : ConsensusLogEntry) : Option ConsensusCommand :=
  entry.payload.bind Bincode.consensusCommand.read

/-- How far the handler of a command is. From `indexed` to `applied` it holds the lock of the next
index. -/
inductive ConsensusTask
  | idle
  | called (data : Bytes)
  | indexed (data : Bytes) (index : ℕ)
  | prepared (entry : ConsensusLogEntry)
  | applied (entry : ConsensusLogEntry)
  | returned (response : ConsensusResponse)
  | failed (error : String)

namespace ConsensusTask

def writes : ConsensusTask → Bool
  | .indexed _ _ | .prepared _ | .applied _ => true
  | _ => false

def isIdle : ConsensusTask → Bool
  | .idle => true
  | _ => false

def isCalled : ConsensusTask → Bool
  | .called _ => true
  | _ => false

end ConsensusTask

/-- `cause` is what `bincode` reports when it cannot read the payload. -/
inductive ConsensusAction
  | handle (task : ℕ) (command : ConsensusCommand)
  | advance (task : ℕ) (cause : String)

def ConsensusAction.task : ConsensusAction → ℕ
  | .handle i _ | .advance i _ => i

structure ConsensusActor where
  state : ConsensusState
  logs : ExtTreeMap ℕ ConsensusLogEntry compare
  currentTerm : ℕ
  nextIndex : ℕ
  indexLock : RwLock
  tasks : ℕ → ConsensusTask

namespace ConsensusActor

def new : ConsensusActor where
  state := .empty
  logs := ∅
  currentTerm := 0
  nextIndex := 1
  indexLock := .free
  tasks := fun _ => .idle

variable (s : ConsensusActor)

def set (i : ℕ) (task : ConsensusTask) : ConsensusActor :=
  { s with tasks := Function.update s.tasks i task }

/-- The handler returns and gives up the lock. -/
def finish (i : ℕ) (task : ConsensusTask) : ConsensusActor :=
  { s.set i task with indexLock := s.indexLock.releaseWrite }

/-- `apply_entry`, up to the release of the lock of the state. -/
def applyEntry (i : ℕ) (entry : ConsensusLogEntry) (cause : String) : ConsensusActor :=
  match entry.payload with
  | none => s.set i (.applied entry)
  | some data =>
    match Bincode.consensusCommand.read data with
    | none => s.finish i (.failed s!"Failed to deserialize entry payload: {cause}")
    | some command =>
      { s.set i (.applied entry) with state := s.state.applied command entry.index }

def applyCommandSuccess : ConsensusResponse :=
  ⟨true, some "Command applied successfully", none⟩

/-- The next section of `apply_command`. -/
def advance (i : ℕ) (cause : String) : ConsensusActor :=
  match s.tasks i with
  | .called data =>
    { s.set i (.indexed data s.nextIndex) with indexLock := s.indexLock.write i }
  | .indexed data index => s.set i (.prepared ⟨index, s.currentTerm, some data⟩)
  | .prepared entry => s.applyEntry i entry cause
  | .applied entry =>
    { s.finish i (.returned applyCommandSuccess) with
      logs := s.logs.insert entry.index entry
      nextIndex := s.nextIndex + 1 }
  | _ => s

def step (s : ConsensusActor) : ConsensusAction → ConsensusActor
  | .handle i command => s.set i (.called (Bincode.consensusCommand.encode command))
  | .advance i cause => s.advance i cause

/-- A command has a handler of its own, which waits for the lock of the next index. -/
def Enabled (s : ConsensusActor) : ConsensusAction → Prop
  | .handle i _ => (s.tasks i).isIdle = true
  | .advance i _ => (s.tasks i).isCalled = true → s.indexLock.CanWrite

instance decidableEnabled (s : ConsensusActor) : (a : ConsensusAction) → Decidable (s.Enabled a)
  | .handle i _ => inferInstanceAs (Decidable ((s.tasks i).isIdle = true))
  | .advance i _ =>
      inferInstanceAs (Decidable ((s.tasks i).isCalled = true → s.indexLock.CanWrite))

/-! ## Replaying the log -/

/-- The directory after the commands of the entries up to an index, in order. -/
def replay (logs : ExtTreeMap ℕ ConsensusLogEntry compare) : ℕ → Directory
  | 0 => .empty
  | n + 1 =>
    match logs[n + 1]?.bind ConsensusLogEntry.command with
    | some command => (replay logs n).apply command
    | none => replay logs n

/-- The log holds the entries below the next index under their indices, each with a command that can
be read, and the maps of the state are what these commands make of empty ones. -/
structure Replayed (s : ConsensusActor) : Prop where
  keys : ∀ k, k ∈ s.logs ↔ 1 ≤ k ∧ k ≤ s.nextIndex - 1
  index : ∀ (k : ℕ) entry, s.logs[k]? = some entry → entry.index = k
  decodes : ∀ (k : ℕ) entry, s.logs[k]? = some entry → entry.command.isSome = true
  lastApplied : s.state.lastAppliedIndex = s.nextIndex - 1
  nodes : ∀ id, s.state.nodes[id]? = (replay s.logs (s.nextIndex - 1)).node id
  registrations : ∀ path,
    s.state.actorRegistrations[path]? = (replay s.logs (s.nextIndex - 1)).actor path

/-- What the handlers share. -/
def shared : ConsensusState × ExtTreeMap ℕ ConsensusLogEntry compare × ℕ :=
  (s.state, s.logs, s.nextIndex)

section Replay

variable {logs : ExtTreeMap ℕ ConsensusLogEntry compare}

/-- Later entries do not matter. -/
theorem replay_insert {k n : ℕ} (h : n < k) (entry : ConsensusLogEntry) :
    replay (logs.insert k entry) n = replay logs n := by
  induction n with
  | zero => rfl
  | succ n ih =>
      have hne : ¬ compare k (n + 1) = .eq := by
        rw [Nat.compare_eq_eq]
        omega
      rw [replay, replay, ExtTreeMap.getElem?_insert, if_neg hne, ih (by omega)]

theorem replay_insert_self {n : ℕ} {entry : ConsensusLogEntry} {command : ConsensusCommand}
    (h : entry.command = some command) :
    replay (logs.insert (n + 1) entry) (n + 1) = (replay logs n).apply command := by
  rw [replay, ExtTreeMap.getElem?_insert_self, Option.bind_some, h]
  simp only
  rw [replay_insert (Nat.lt_succ_self n)]

end Replay

/-! ## Interleavings -/

variable {s}

/-- Between two commands the state is the replayed log; a handler that has applied its entry is one
command ahead of it. -/
structure Sound (s : ConsensusActor) : Prop where
  lock : s.indexLock.Guards ConsensusTask.writes s.tasks
  positive : 1 ≤ s.nextIndex
  keys : ∀ k, k ∈ s.logs ↔ 1 ≤ k ∧ k ≤ s.nextIndex - 1
  index : ∀ (k : ℕ) entry, s.logs[k]? = some entry → entry.index = k
  decodes : ∀ (k : ℕ) entry, s.logs[k]? = some entry → entry.command.isSome = true
  indexed : ∀ i data index, s.tasks i = .indexed data index → index = s.nextIndex
  prepared : ∀ i entry, s.tasks i = .prepared entry →
    entry.index = s.nextIndex ∧ entry.payload ≠ none
  quiet : (∀ i entry, s.tasks i ≠ .applied entry) →
    s.state.lastAppliedIndex = s.nextIndex - 1 ∧
      s.state.directory = replay s.logs (s.nextIndex - 1)
  applied : ∀ i entry, s.tasks i = .applied entry → entry.index = s.nextIndex ∧
    s.state.lastAppliedIndex = s.nextIndex ∧ ∃ command, entry.command = some command ∧
      s.state.directory = (replay s.logs (s.nextIndex - 1)).apply command

theorem sound_new : new.Sound where
  lock := fun i => by simp [new, ConsensusTask.writes]
  positive := le_rfl
  keys := fun k => by
    simp only [new, ExtTreeMap.not_mem_empty, false_iff]
    omega
  index := fun k entry h => by simp [new] at h
  decodes := fun k entry h => by simp [new] at h
  indexed := fun i data index h => by simp [new] at h
  prepared := fun i entry h => by simp [new] at h
  quiet := fun _ => ⟨rfl, ConsensusState.directory_empty⟩
  applied := fun i entry h => by simp [new] at h

/-- Without the lock held the log is replayed. -/
theorem Sound.replayed (h : s.Sound) (hfree : s.indexLock.writer = none) : s.Replayed := by
  have hnone : ∀ i entry, s.tasks i ≠ .applied entry := by
    intro i entry hi
    have hwrites := h.lock.not_writes hfree i
    rw [hi] at hwrites
    exact Bool.noConfusion hwrites
  obtain ⟨hlast, hdirectory⟩ := h.quiet hnone
  refine ⟨h.keys, h.index, h.decodes, hlast, fun id => ?_, fun path => ?_⟩
  · exact congrFun (congrArg Directory.node hdirectory) id
  · exact congrFun (congrArg Directory.actor hdirectory) path

theorem tasks_set_eq {i j : ℕ} {task task' : ConsensusTask} (h : (s.set i task).tasks j = task') :
    (j = i ∧ task = task') ∨ (j ≠ i ∧ s.tasks j = task') := by
  by_cases hj : j = i
  · subst hj
    exact Or.inl ⟨rfl, by simpa [set] using h⟩
  · refine Or.inr ⟨hj, ?_⟩
    simpa [set, hj] using h

/-- A section that changes nothing that is shared, apart from the lock, and has not applied its
entry. -/
theorem Sound.unchanged (h : s.Sound) {s' : ConsensusActor} {i : ℕ} {task : ConsensusTask}
    (hstate : s'.state = s.state) (hlogs : s'.logs = s.logs) (hnext : s'.nextIndex = s.nextIndex)
    (htasks : s'.tasks = (s.set i task).tasks)
    (hlock : s'.indexLock.Guards ConsensusTask.writes s'.tasks)
    (hold : ∀ entry, s.tasks i ≠ .applied entry) (hnew : ∀ entry, task ≠ .applied entry)
    (hindexed : ∀ data index, task = .indexed data index → index = s.nextIndex)
    (hprepared : ∀ entry, task = .prepared entry →
      entry.index = s.nextIndex ∧ entry.payload ≠ none) : s'.Sound := by
  refine ⟨hlock, by rw [hnext]; exact h.positive, by rw [hlogs, hnext]; exact h.keys,
    by rw [hlogs]; exact h.index, by rw [hlogs]; exact h.decodes, ?_, ?_, ?_, ?_⟩
  · intro j data index hj
    rw [htasks] at hj
    rw [hnext]
    rcases tasks_set_eq hj with ⟨-, heq⟩ | ⟨-, hother⟩
    · exact hindexed data index heq
    · exact h.indexed j data index hother
  · intro j entry hj
    rw [htasks] at hj
    rw [hnext]
    rcases tasks_set_eq hj with ⟨-, heq⟩ | ⟨-, hother⟩
    · exact hprepared entry heq
    · exact h.prepared j entry hother
  · intro hnone
    rw [hstate, hlogs, hnext]
    refine h.quiet fun j entry hj => ?_
    by_cases hji : j = i
    · exact hold entry (hji ▸ hj)
    · refine hnone j entry ?_
      rw [htasks]
      simpa [set, hji] using hj
  · intro j entry hj
    rw [htasks] at hj
    rw [hstate, hlogs, hnext]
    rcases tasks_set_eq hj with ⟨-, heq⟩ | ⟨-, hother⟩
    · exact absurd heq (hnew entry)
    · exact h.applied j entry hother

/-- Only one handler is past the acquisition of the lock. -/
theorem Sound.alone (h : s.Sound) {i j : ℕ} (hi : (s.tasks i).writes = true)
    (hj : (s.tasks j).writes = true) : j = i :=
  h.lock.eq_of_writes hj hi

theorem Sound.applyEntry (h : s.Sound) {i : ℕ} {entry : ConsensusLogEntry} {data : Bytes}
    {command : ConsensusCommand} (htask : s.tasks i = .prepared entry)
    (hpayload : entry.payload = some data)
    (hcommand : Bincode.consensusCommand.read data = some command) :
    ({ s.set i (.applied entry) with state := s.state.applied command entry.index } :
      ConsensusActor).Sound := by
  have hwrites : (s.tasks i).writes = true := by rw [htask]; rfl
  have hindex := (h.prepared i entry htask).1
  have hnone : ∀ j entry', s.tasks j ≠ .applied entry' := by
    intro j entry' hj
    obtain rfl := h.alone hwrites (j := j) (by rw [hj]; rfl)
    exact absurd (htask.symm.trans hj) (by simp)
  refine ⟨h.lock.update rfl (by rw [htask]; rfl), h.positive, h.keys, h.index, h.decodes, ?_, ?_,
    ?_, ?_⟩
  · intro j data' index hj
    rcases tasks_set_eq hj with ⟨-, heq⟩ | ⟨-, hother⟩
    · exact absurd heq (by simp)
    · exact h.indexed j data' index hother
  · intro j entry' hj
    rcases tasks_set_eq hj with ⟨-, heq⟩ | ⟨-, hother⟩
    · exact absurd heq (by simp)
    · exact h.prepared j entry' hother
  · intro hquiet
    exact absurd (Function.update_self ..) (hquiet i entry)
  · intro j entry' hj
    rcases tasks_set_eq hj with ⟨-, heq⟩ | ⟨-, hother⟩
    · obtain rfl := ConsensusTask.applied.inj heq
      refine ⟨hindex, hindex, command,
        by rw [ConsensusLogEntry.command, hpayload]; exact hcommand, ?_⟩
      change (s.state.applied command entry.index).directory =
        (replay s.logs (s.nextIndex - 1)).apply command
      rw [ConsensusState.directory_applied, (h.quiet hnone).2]
    · exact absurd hother (hnone j entry')

theorem Sound.store (h : s.Sound) {i : ℕ} {entry : ConsensusLogEntry}
    (htask : s.tasks i = .applied entry) :
    ({ s.finish i (.returned applyCommandSuccess) with
      logs := s.logs.insert entry.index entry
      nextIndex := s.nextIndex + 1 } : ConsensusActor).Sound := by
  have hwrites : (s.tasks i).writes = true := by rw [htask]; rfl
  have hother : ∀ j, j ≠ i → (s.tasks j).writes = false := by
    intro j hj
    by_contra hjw
    exact hj (h.alone hwrites (by simpa using hjw))
  have htasks : ∀ {j task}, task ≠ .returned applyCommandSuccess → task.writes = true →
      (s.set i (.returned applyCommandSuccess)).tasks j ≠ task := by
    intro j task hne htaskWrites hj
    rcases tasks_set_eq hj with ⟨-, heq⟩ | ⟨hji, heq⟩
    · exact hne heq.symm
    · have hnot := hother j hji
      rw [heq, htaskWrites] at hnot
      exact Bool.noConfusion hnot
  obtain ⟨hindex, hlast, command, hcommand, hdirectory⟩ := h.applied i entry htask
  obtain ⟨m, hm⟩ : ∃ m, s.nextIndex = m + 1 := ⟨s.nextIndex - 1, by have := h.positive; omega⟩
  refine ⟨h.lock.release hwrites rfl, Nat.le_add_left 1 s.nextIndex, ?_, ?_, ?_, ?_, ?_, ?_, ?_⟩
  · intro k
    change k ∈ s.logs.insert entry.index entry ↔ 1 ≤ k ∧ k ≤ s.nextIndex + 1 - 1
    rw [ExtTreeMap.mem_insert, h.keys, hindex, Nat.compare_eq_eq]
    omega
  · intro k entry' hentry'
    rw [ExtTreeMap.getElem?_insert] at hentry'
    split_ifs at hentry' with hk
    · obtain rfl := Option.some.inj hentry'
      exact Nat.compare_eq_eq.mp hk
    · exact h.index k entry' hentry'
  · intro k entry' hentry'
    rw [ExtTreeMap.getElem?_insert] at hentry'
    split_ifs at hentry' with hk
    · obtain rfl := Option.some.inj hentry'
      rw [hcommand]
      rfl
    · exact h.decodes k entry' hentry'
  · exact fun j data index hj => absurd hj (htasks (by simp) rfl)
  · exact fun j entry' hj => absurd hj (htasks (by simp) rfl)
  · refine fun _ => ⟨hlast, ?_⟩
    change s.state.directory = replay (s.logs.insert entry.index entry) (s.nextIndex + 1 - 1)
    rw [hdirectory, hindex, hm, Nat.add_sub_cancel, Nat.add_sub_cancel,
      replay_insert_self hcommand]
  · exact fun j entry' hj => absurd hj (htasks (by simp) rfl)

theorem sound_step (h : s.Sound) {a : ConsensusAction} (henabled : s.Enabled a) :
    (s.step a).Sound := by
  cases a with
  | handle i command =>
      have hidle : s.tasks i = .idle := by
        change (s.tasks i).isIdle = true at henabled
        cases htask : s.tasks i with
        | idle => rfl
        | _ =>
            rw [htask] at henabled
            exact Bool.noConfusion henabled
      exact h.unchanged rfl rfl rfl rfl (h.lock.update rfl (by rw [hidle]; rfl)) (by simp [hidle])
        (by simp) (by simp) (by simp)
  | advance i cause =>
      change (s.advance i cause).Sound
      cases htask : s.tasks i with
      | called data =>
          have hfree : s.indexLock.writer = none := (henabled (by rw [htask]; rfl)).1
          simp only [ConsensusActor.advance, htask]
          refine h.unchanged rfl rfl rfl rfl (h.lock.acquire hfree rfl) (by simp [htask]) (by simp)
            ?_ (by simp)
          intro data' index heq
          exact (ConsensusTask.indexed.inj heq).2.symm
      | indexed data index =>
          simp only [ConsensusActor.advance, htask]
          refine h.unchanged rfl rfl rfl rfl (h.lock.update rfl (by rw [htask]; rfl))
            (by simp [htask]) (by simp) (by simp) ?_
          intro entry heq
          obtain rfl := ConsensusTask.prepared.inj heq
          exact ⟨h.indexed i data index htask, by simp⟩
      | prepared entry =>
          cases hpayload : entry.payload with
          | none => exact absurd hpayload (h.prepared i entry htask).2
          | some data =>
              simp only [ConsensusActor.advance, htask, ConsensusActor.applyEntry, hpayload]
              cases hcommand : Bincode.consensusCommand.read data with
              | none =>
                  exact h.unchanged rfl rfl rfl rfl
                    (h.lock.release (by rw [htask]; rfl) rfl) (by simp [htask]) (by simp) (by simp)
                    (by simp)
              | some command => exact h.applyEntry htask hpayload hcommand
      | applied entry =>
          simp only [ConsensusActor.advance, htask]
          exact h.store htask
      | _ =>
          simp only [ConsensusActor.advance, htask]
          exact h

/-! ## Commands that cannot be read -/

/-- The handler has neither applied its entry nor returned a response. -/
def untouched : ConsensusTask → Bool
  | .applied _ | .returned _ => false
  | _ => true

theorem tasks_step_of_ne {a : ConsensusAction} {i : ℕ} (h : a.task ≠ i) :
    (s.step a).tasks i = s.tasks i := by
  have hset (s : ConsensusActor) (task : ConsensusTask) :
      (s.set a.task task).tasks i = s.tasks i := Function.update_of_ne (Ne.symm h) ..
  cases a with
  | handle j command => exact hset s _
  | advance j cause =>
      simp only [step, ConsensusActor.advance]
      cases s.tasks j with
      | called data => exact hset s _
      | indexed data index => exact hset s _
      | prepared entry =>
          simp only [ConsensusActor.applyEntry]
          split
          · exact hset s _
          · split
            · exact hset s _
            · exact hset s _
      | applied entry => exact hset s _
      | _ => rfl

theorem tasks_set_self (i : ℕ) (task : ConsensusTask) : (s.set i task).tasks i = task :=
  Function.update_self ..

/-- A handler that has not applied its entry after a section of its own had not before it, and the
section changed nothing. -/
theorem shared_step {a : ConsensusAction} (henabled : s.Enabled a)
    (h : untouched ((s.step a).tasks a.task) = true) :
    untouched (s.tasks a.task) = true ∧ (s.step a).shared = s.shared := by
  cases a with
  | handle i command =>
      change (s.tasks i).isIdle = true at henabled
      refine ⟨?_, rfl⟩
      change untouched (s.tasks i) = true
      cases htask : s.tasks i with
      | idle => rfl
      | _ =>
          rw [htask] at henabled
          exact Bool.noConfusion henabled
  | advance i cause =>
      change untouched ((s.advance i cause).tasks i) = true at h
      change untouched (s.tasks i) = true ∧ (s.advance i cause).shared = s.shared
      cases htask : s.tasks i with
      | prepared entry =>
          simp only [ConsensusActor.advance, htask, ConsensusActor.applyEntry] at h ⊢
          cases hpayload : entry.payload with
          | none => exact ⟨rfl, rfl⟩
          | some data =>
              simp only [hpayload] at h ⊢
              cases hcommand : Bincode.consensusCommand.read data with
              | none => exact ⟨rfl, rfl⟩
              | some command =>
                  rw [hcommand] at h
                  change untouched ((s.set i (.applied entry)).tasks i) = true at h
                  rw [tasks_set_self] at h
                  exact Bool.noConfusion h
      | applied entry =>
          simp only [ConsensusActor.advance, htask] at h
          change untouched ((s.set i (.returned applyCommandSuccess)).tasks i) = true at h
          rw [tasks_set_self] at h
          exact Bool.noConfusion h
      | returned response =>
          simp only [ConsensusActor.advance, htask] at h
          exact Bool.noConfusion h
      | idle =>
          refine ⟨rfl, ?_⟩
          rw [ConsensusActor.advance, htask]
      | failed error =>
          refine ⟨rfl, ?_⟩
          rw [ConsensusActor.advance, htask]
      | _ =>
          refine ⟨rfl, ?_⟩
          rw [ConsensusActor.advance, htask]
          rfl

theorem shared_run {as : List ConsensusAction} (has : Admissible step Enabled new as) {i : ℕ}
    (h : untouched ((run step new as).tasks i) = true) {before after : List ConsensusAction}
    {a : ConsensusAction} (hsplit : as = before ++ a :: after) (ha : a.task = i) :
    (run step new (before ++ [a])).shared = (run step new before).shared := by
  induction as using List.reverseRecOn generalizing after with
  | nil => simp at hsplit
  | append_singleton as b ih =>
      obtain ⟨hbefore, henabled, -⟩ := admissible_append.mp has
      rw [run_append] at h
      have hstep : untouched ((run step new as).tasks i) = true ∧ (b.task = i →
          ((run step new as).step b).shared = (run step new as).shared) := by
        by_cases hb : b.task = i
        · subst hb
          have hboth := shared_step henabled h
          exact ⟨hboth.1, fun _ => hboth.2⟩
        · refine ⟨?_, fun heq => absurd heq hb⟩
          rw [← tasks_step_of_ne hb]
          exact h
      rcases split_snoc hsplit with ⟨rfl, rfl, -⟩ | ⟨rest, rfl⟩
      · rw [run_append]
        exact hstep.2 ha
      · exact ih hbefore hstep.1 rfl

/-- Whenever no handler holds the lock of the next index, the log is replayed; a handler that
returns an error has changed nothing. -/
theorem consensus_replay (as : List ConsensusAction) (has : Admissible step Enabled new as) :
    ((run step new as).indexLock.writer = none → (run step new as).Replayed) ∧
      ∀ i error, (run step new as).tasks i = .failed error →
        ∀ before a after, as = before ++ a :: after → a.task = i →
          (run step new (before ++ [a])).shared = (run step new before).shared := by
  constructor
  · intro hfree
    have hsound : (run step new as).Sound :=
      invariant_run (I := Sound) (fun _ _ h hok => sound_step h hok) sound_new has
    exact hsound.replayed hfree
  · intro i error hfailed before a after hsplit ha
    exact shared_run has (by rw [hfailed]; rfl) hsplit ha

/-- A node that cannot be read back, since it has metadata. -/
def described : NodeInfo :=
  { NodeInfo.new 7 "node" .peer (.v4 ⟨0, 80⟩) with
    metadata := ExtTreeMap.ofList [("k", JsonValue.null)] }

def plain : NodeInfo := NodeInfo.new 7 "node" .peer (.v4 ⟨0, 80⟩)

/-- Four commands; the second waits for the first, and the last cannot be read. -/
def fourCommands : List ConsensusAction :=
  [.handle 0 (.registerActor "a" 7), .handle 1 (.addNode plain), .advance 0 "", .advance 0 "",
    .advance 0 "", .advance 0 "", .advance 1 "", .advance 1 "", .advance 1 "", .advance 1 "",
    .handle 2 (.updateNodeStatus 7 .leaving), .advance 2 "", .advance 2 "", .advance 2 "",
    .advance 2 "", .handle 3 (.addNode described), .advance 3 "", .advance 3 "", .advance 3 ""]

theorem consensus_replay_fourCommands :
    (run step new fourCommands).Replayed ∧ (run step new fourCommands).nextIndex = 4 ∧
      (run step new fourCommands).state.nodes.toList.map (fun e => (e.1, e.2.status)) =
        [(7, .leaving)] ∧
      (run step new fourCommands).state.actorRegistrations.toList = [("a", 7)] ∧
      ∃ error, (run step new fourCommands).tasks 3 = .failed error ∧
        (run step new (fourCommands.take 18 ++ [.advance 3 ""])).shared =
          (run step new (fourCommands.take 18)).shared := by
  have hboth := consensus_replay fourCommands (by decide +kernel)
  have hfailed : ∃ error, (run step new fourCommands).tasks 3 = .failed error := ⟨_, rfl⟩
  obtain ⟨error, herror⟩ := hfailed
  exact ⟨hboth.1 (by decide +kernel), by decide +kernel, by decide +kernel, by decide +kernel,
    error, herror,
    hboth.2 3 error herror (fourCommands.take 18) (.advance 3 "") (fourCommands.drop 19) rfl rfl⟩

end ConsensusActor

end ActixPura
