import ActixPura.Runs

/-!
# A pool of sync actors

`SyncArbiter` and `SyncContext` of `sync.rs`. The arbiter moves messages from its mailbox to a queue
shared by the worker threads, and each worker runs an actor of its own: it takes a message, lets the
actor handle it, and replaces the actor when it asked to stop. When no address is left the arbiter
drops its end of the queue, and a worker that finds the queue empty then stops its actor and ends.

The threads interleave at the accesses to the mailbox and the queue. A poll of the arbiter looks
into the mailbox until it is empty and asks only then whether a sender is left, so a message can
come in between, and a worker can make a new address at any time. A panic of a handler or a hook
and a thread that cannot be spawned are not modelled.

`arrived`, `forwarded`, `taken` and `lost` record what entered the mailbox, what entered the queue,
which worker took it and what went with the arbiter.
-/

namespace ActixPura

open Runs

/-- A message with the sender of its answer. A request is numbered by its place among the messages
that arrived, a plain message has no `tx`. -/
structure SyncContextEnvelope (M : Type) where
  msg : M
  tx : Option ℕ
  deriving DecidableEq

namespace SyncContextEnvelope

variable {M : Type} {closed : List ℕ} {env : SyncContextEnvelope M}

/-- Whether the `Request` that waits for the answer was dropped; `closed` are those that were. -/
def isClosed (env : SyncContextEnvelope M) (closed : List ℕ) : Bool :=
  env.tx.any fun k => decide (k ∈ closed)

theorem isClosed_cons (h : env.isClosed closed) (k : ℕ) : env.isClosed (k :: closed) := by
  rw [isClosed, Option.any_eq_true] at h ⊢
  obtain ⟨k', htx, hk'⟩ := h
  exact ⟨k', htx, by simpa using .inr (of_decide_eq_true hk')⟩

end SyncContextEnvelope

/-- The calls of a worker's actors; `skipped` is a message whose handler is not called. -/
inductive SyncEvent (M : Type)
  | started
  | handled (env : SyncContextEnvelope M)
  | skipped (env : SyncContextEnvelope M)
  | stopping
  | stopped
  deriving DecidableEq

/-- `waiting` is a worker in `queue.recv`. -/
inductive WorkerPhase (M : Type)
  | fresh
  | waiting
  | busy (env : SyncContextEnvelope M)
  | gone
  deriving DecidableEq

/-- A worker owns a receiver of the queue and can make addresses until it ends. -/
def WorkerPhase.runs {M : Type} : WorkerPhase M → Bool
  | .gone => false
  | _ => true

/-- A `SyncContext` with the calls of its actors. -/
structure SyncContext (M : Type) where
  phase : WorkerPhase M
  stopping : Bool
  log : List (SyncEvent M)

namespace SyncContext

variable {M : Type}

def new : SyncContext M := ⟨.fresh, false, []⟩

/-- The start of `run`; `stops` says whether `started` calls `stop` or `terminate`. -/
def start (w : SyncContext M) (stops : Bool) : SyncContext M :=
  match w.phase with
  | .fresh => ⟨.waiting, stops, w.log ++ [.started]⟩
  | _ => w

def recv (w : SyncContext M) (env : SyncContextEnvelope M) : SyncContext M :=
  { w with phase := .busy env }

/-- The end of `recv` on a queue without a sender. -/
def leave (w : SyncContext M) : SyncContext M :=
  { w with phase := .gone, log := w.log ++ [.stopping, .stopped] }

/-- `SyncContextEnvelope::handle`. Nobody waits for the answer to a closed request, and its handler
is not called; `stops` says whether the handler calls `stop` or `terminate`. -/
def handleEnvelope (w : SyncContext M) (closed : List ℕ) (env : SyncContextEnvelope M)
    (stops : Bool) : SyncContext M :=
  if env.isClosed closed then { w with log := w.log ++ [.skipped env] }
  else { w with stopping := w.stopping || stops, log := w.log ++ [.handled env] }

/-- The rest of a round of the loop of `run`; `hooks` says whether the hooks of a restart call
`stop` or `terminate`. -/
def restart (w : SyncContext M) (hooks : Bool) : SyncContext M :=
  if w.stopping then ⟨.waiting, hooks, w.log ++ [.stopping, .stopped, .started]⟩
  else { w with phase := .waiting }

/-- A round of the loop of `run` after `recv`. -/
def handle (w : SyncContext M) (closed : List ℕ) (stops hooks : Bool) : SyncContext M :=
  match w.phase with
  | .busy env => (w.handleEnvelope closed env stops).restart hooks
  | _ => w

/-- The messages a worker is done with. -/
def envelopesOf (es : List (SyncEvent M)) : List (SyncContextEnvelope M) :=
  es.filterMap fun
    | .handled env | .skipped env => some env
    | _ => none

def inHand : WorkerPhase M → List (SyncContextEnvelope M)
  | .busy env => [env]
  | _ => []

/-- The messages a worker took, the one at hand last. -/
def messages (w : SyncContext M) : List (SyncContextEnvelope M) :=
  envelopesOf w.log ++ inHand w.phase

/-- Whether an actor runs, ends, or is not there. -/
inductive Life
  | down
  | up
  | ending
  deriving DecidableEq

def Life.next : Life → SyncEvent M → Option Life
  | .down, .started => some .up
  | .up, .handled _ | .up, .skipped _ => some .up
  | .up, .stopping => some .ending
  | .ending, .stopped => some .down
  | _, _ => none

/-- Where the calls of a worker lead, if they come in an order that the life of actors allows. -/
def lifeAfter (es : List (SyncEvent M)) : Option Life := es.foldlM Life.next .down

def lifeOf : WorkerPhase M → Life
  | .fresh | .gone => .down
  | .waiting | .busy _ => .up

/-- What holds of a worker that took the messages `taken`: it is done with them in the order in
which it took them, up to the one at hand, and left out only closed requests, and its calls come in
the order of the life of actors. -/
structure Fits (w : SyncContext M) (taken : List (SyncContextEnvelope M)) (closed : List ℕ) :
    Prop where
  messages : w.messages = taken
  skipped : ∀ env, .skipped env ∈ w.log → env.isClosed closed
  life : lifeAfter w.log = some (lifeOf w.phase)

section Workers

variable {w : SyncContext M} {taken : List (SyncContextEnvelope M)} {closed : List ℕ}

@[simp] theorem envelopesOf_append (es xs : List (SyncEvent M)) :
    envelopesOf (es ++ xs) = envelopesOf es ++ envelopesOf xs := List.filterMap_append

theorem mem_envelopesOf {es : List (SyncEvent M)} {env : SyncContextEnvelope M} :
    env ∈ envelopesOf es ↔ .handled env ∈ es ∨ .skipped env ∈ es := by
  rw [envelopesOf, List.mem_filterMap]
  constructor
  · rintro ⟨event, hevent, henv⟩
    cases event with
    | handled env' =>
        obtain rfl := Option.some.inj henv
        exact .inl hevent
    | skipped env' =>
        obtain rfl := Option.some.inj henv
        exact .inr hevent
    | started | stopping | stopped => cases henv
  · rintro (hevent | hevent)
    · exact ⟨_, hevent, rfl⟩
    · exact ⟨_, hevent, rfl⟩

theorem lifeAfter_append {es xs : List (SyncEvent M)} {life : Life}
    (h : lifeAfter es = some life) : lifeAfter (es ++ xs) = xs.foldlM Life.next life := by
  rw [lifeAfter] at h
  rw [lifeAfter, List.foldlM_append, h, Option.bind_eq_bind, Option.bind_some]

theorem fits_new : (new : SyncContext M).Fits [] closed where
  messages := rfl
  skipped := by simp [new]
  life := rfl

theorem Fits.cancel (h : w.Fits taken closed) (k : ℕ) : w.Fits taken (k :: closed) :=
  ⟨h.messages, fun env henv => SyncContextEnvelope.isClosed_cons (h.skipped env henv) k, h.life⟩

theorem Fits.start (h : w.Fits taken closed) (stops : Bool) :
    (w.start stops).Fits taken closed := by
  unfold SyncContext.start
  cases hphase : w.phase with
  | fresh =>
      obtain ⟨hmessages, hskipped, hlife⟩ := h
      rw [hphase] at hlife
      refine ⟨?_, fun env henv => hskipped env (by simpa using henv), lifeAfter_append hlife⟩
      rw [← hmessages]
      simp [SyncContext.messages, envelopesOf, inHand, hphase]
  | waiting | busy | gone => exact h

theorem Fits.recv (h : w.Fits taken closed) (hphase : w.phase = .waiting)
    (env : SyncContextEnvelope M) : (w.recv env).Fits (taken ++ [env]) closed := by
  obtain ⟨hmessages, hskipped, hlife⟩ := h
  rw [hphase] at hlife
  refine ⟨?_, hskipped, hlife⟩
  rw [← hmessages]
  simp [SyncContext.messages, SyncContext.recv, inHand, hphase]

theorem Fits.leave (h : w.Fits taken closed) (hphase : w.phase = .waiting) :
    w.leave.Fits taken closed := by
  obtain ⟨hmessages, hskipped, hlife⟩ := h
  rw [hphase] at hlife
  refine ⟨?_, fun env henv => hskipped env (by simpa [SyncContext.leave] using henv),
    lifeAfter_append hlife⟩
  rw [← hmessages]
  simp [SyncContext.messages, SyncContext.leave, envelopesOf, inHand, hphase]

/-- A worker whose envelope was handled but which has not come back to `recv`: its message is
counted in the log, and the phase still names it. -/
structure Handled (w : SyncContext M) (taken : List (SyncContextEnvelope M)) (closed : List ℕ) :
    Prop where
  messages : envelopesOf w.log = taken
  skipped : ∀ env, .skipped env ∈ w.log → env.isClosed closed
  life : lifeAfter w.log = some .up

theorem Fits.handleEnvelope {env : SyncContextEnvelope M} (h : w.Fits taken closed)
    (hphase : w.phase = .busy env) (stops : Bool) :
    (w.handleEnvelope closed env stops).Handled taken closed := by
  obtain ⟨hmessages, hskipped, hlife⟩ := h
  rw [SyncContext.messages, hphase] at hmessages
  rw [hphase] at hlife
  unfold SyncContext.handleEnvelope
  split_ifs with hclosed
  · refine ⟨?_, fun env' henv' => ?_, lifeAfter_append hlife⟩
    · rw [← hmessages]
      simp [envelopesOf, inHand]
    · rcases List.mem_append.mp henv' with henv' | henv'
      · exact hskipped env' henv'
      · obtain rfl := SyncEvent.skipped.inj (List.mem_singleton.mp henv')
        exact hclosed
  · refine ⟨?_, fun env' henv' => hskipped env' (by simpa using henv'), lifeAfter_append hlife⟩
    rw [← hmessages]
    simp [envelopesOf, inHand]

theorem Handled.restart (h : w.Handled taken closed) (hooks : Bool) :
    (w.restart hooks).Fits taken closed := by
  obtain ⟨hmessages, hskipped, hlife⟩ := h
  unfold SyncContext.restart
  split_ifs
  · refine ⟨?_, fun env henv => hskipped env (by simpa using henv), lifeAfter_append hlife⟩
    rw [← hmessages]
    simp [SyncContext.messages, envelopesOf, inHand]
  · refine ⟨?_, hskipped, hlife⟩
    rw [← hmessages]
    simp [SyncContext.messages, inHand]

theorem Fits.handle (h : w.Fits taken closed) (stops hooks : Bool) :
    (w.handle closed stops hooks).Fits taken closed := by
  unfold SyncContext.handle
  cases hphase : w.phase with
  | busy env => exact (h.handleEnvelope hphase stops).restart hooks
  | fresh | waiting | gone => exact h

theorem start_gone {stops : Bool} : (w.start stops).phase = .gone → w.phase = .gone := by
  unfold start
  cases hphase : w.phase with
  | fresh =>
      intro hgone
      cases hgone
  | waiting | busy | gone => exact fun hgone => hphase.symm.trans hgone

theorem handle_gone {stops hooks : Bool} :
    (w.handle closed stops hooks).phase = .gone → w.phase = .gone := by
  unfold handle
  cases hphase : w.phase with
  | busy env =>
      intro hgone
      dsimp only [restart] at hgone
      split_ifs at hgone
  | fresh | waiting | gone => exact fun hgone => hphase.symm.trans hgone

end Workers

end SyncContext

/-- Where the arbiter stands: it polls its mailbox, it found it empty, it waits to be polled again,
it dropped the queue, or the mailbox was dropped too. -/
inductive ArbiterPhase
  | polling
  | checking
  | idle
  | finished
  | dropped
  deriving DecidableEq

/-- No sender of the queue is left. -/
def ArbiterPhase.ended : ArbiterPhase → Bool
  | .finished | .dropped => true
  | _ => false

structure SyncArbiter (M : Type) (n : ℕ) where
  connected : Bool
  closed : List ℕ
  msgs : List (SyncContextEnvelope M)
  phase : ArbiterPhase
  panicked : Bool
  queue : List (SyncContextEnvelope M)
  workers : Fin n → SyncContext M
  arrived : List (SyncContextEnvelope M)
  forwarded : List (SyncContextEnvelope M)
  taken : List (Fin n × SyncContextEnvelope M)
  lost : List (SyncContextEnvelope M)

/-- `cancel` drops the `Request` of a message, `address` is `SyncContext::address` and `disconnect`
the end of the last address. -/
inductive SyncAction (M : Type) (n : ℕ)
  | send (msg : M) (request : Bool)
  | cancel (k : ℕ)
  | address (i : Fin n)
  | disconnect
  | forward
  | check
  | wake
  | drop
  | start (i : Fin n) (stops : Bool)
  | recv (i : Fin n)
  | handle (i : Fin n) (stops hooks : Bool)

namespace SyncArbiter

open SyncContext

variable {M : Type} {n : ℕ}

def new : SyncArbiter M n where
  connected := true
  closed := []
  msgs := []
  phase := .polling
  panicked := false
  queue := []
  workers := fun _ => .new
  arrived := []
  forwarded := []
  taken := []
  lost := []

def setWorker (s : SyncArbiter M n) (i : Fin n) (w : SyncContext M) : SyncArbiter M n :=
  { s with workers := Function.update s.workers i w }

def envelope (s : SyncArbiter M n) (msg : M) (request : Bool) : SyncContextEnvelope M :=
  ⟨msg, if request then some s.arrived.length else none⟩

/-- A send to an address, which fails when the mailbox is gone. -/
def send (s : SyncArbiter M n) (msg : M) (request : Bool) : SyncArbiter M n :=
  if s.connected ∧ s.phase ≠ .dropped then
    { s with
      msgs := s.msgs ++ [s.envelope msg request]
      arrived := s.arrived ++ [s.envelope msg request] }
  else s

/-- One call of `poll_next` with the assertion on `queue.send`, which fails when no receiver of the
queue is left and takes the arbiter down. -/
def forward (s : SyncArbiter M n) : SyncArbiter M n :=
  match s.msgs with
  | [] => { s with phase := .checking }
  | env :: msgs =>
    if ∃ i, (s.workers i).phase.runs then
      { s with msgs := msgs, queue := s.queue ++ [env], forwarded := s.forwarded ++ [env] }
    else { s with msgs := msgs, lost := s.lost ++ [env], phase := .finished, panicked := true }

/-- The runtime drops the arbiter when its future has ended or the system stops: its end of the
queue first, then the mailbox with what is in it. -/
def drop (s : SyncArbiter M n) : SyncArbiter M n :=
  match s.phase with
  | .finished => { s with phase := .dropped, msgs := [], lost := s.lost ++ s.msgs }
  | .dropped => s
  | _ => { s with phase := .finished }

/-- `queue.recv` of a waiting worker. With nothing in the queue it waits on or ends. -/
def recv (s : SyncArbiter M n) (i : Fin n) : SyncArbiter M n :=
  match s.queue with
  | env :: queue =>
    { s.setWorker i ((s.workers i).recv env) with
      queue := queue, taken := s.taken ++ [(i, env)] }
  | [] => if s.phase.ended then s.setWorker i (s.workers i).leave else s

def step (s : SyncArbiter M n) : SyncAction M n → SyncArbiter M n
  | .send msg request => s.send msg request
  | .cancel k => if k < s.arrived.length then { s with closed := k :: s.closed } else s
  | .address i => if (s.workers i).phase.runs then { s with connected := true } else s
  | .disconnect => { s with connected := false }
  | .forward => if s.phase = .polling then s.forward else s
  | .check =>
    if s.phase = .checking then
      { s with phase := if s.connected then .idle else .finished }
    else s
  | .wake => if s.phase = .idle then { s with phase := .polling } else s
  | .drop => s.drop
  | .start i stops => s.setWorker i ((s.workers i).start stops)
  | .recv i =>
    match (s.workers i).phase with
    | .waiting => s.recv i
    | _ => s
  | .handle i stops hooks => s.setWorker i ((s.workers i).handle s.closed stops hooks)

/-- What worker `i` took, in the order in which it took it. -/
def takenBy (i : Fin n) (taken : List (Fin n × SyncContextEnvelope M)) :
    List (SyncContextEnvelope M) :=
  taken.filterMap fun entry => if entry.1 = i then some entry.2 else none

/-- Every message that arrived is in the mailbox, in the queue, taken by one worker or lost with the
arbiter, and it stands in the order of arrival. A worker ends only when the queue has no sender and
is empty, and so the assertion of a poll fails only in a pool without workers. -/
structure Sound (s : SyncArbiter M n) : Prop where
  arrived : s.arrived = s.forwarded ++ s.lost ++ s.msgs
  forwarded : s.forwarded = s.taken.map Prod.snd ++ s.queue
  workers : ∀ i, (s.workers i).Fits (takenBy i s.taken) s.closed
  gone : ∀ i, (s.workers i).phase = .gone → s.phase.ended ∧ s.queue = []
  lost : s.lost ≠ [] → s.phase.ended
  panicked : s.panicked → n = 0

section Steps

variable {s : SyncArbiter M n}

theorem sound_new : (new : SyncArbiter M n).Sound where
  arrived := rfl
  forwarded := rfl
  workers _ := fits_new
  gone i h := by cases h
  lost h := absurd rfl h
  panicked h := by cases h

theorem workers_setWorker_self {i : Fin n} {w : SyncContext M} :
    (s.setWorker i w).workers i = w := by
  simp only [setWorker, Function.update_self]

theorem workers_setWorker_of_ne {i j : Fin n} {w : SyncContext M} (hj : j ≠ i) :
    (s.setWorker i w).workers j = s.workers j := by
  simp only [setWorker, Function.update_of_ne hj]

/-- What holds of a replaced worker and of all others holds of every worker. -/
theorem forall_setWorker {P : Fin n → SyncContext M → Prop} {i : Fin n} {w : SyncContext M}
    (hw : P i w) (h : ∀ j, j ≠ i → P j (s.workers j)) (j : Fin n) :
    P j ((s.setWorker i w).workers j) := by
  by_cases hj : j = i
  · subst hj
    rwa [workers_setWorker_self]
  · rw [workers_setWorker_of_ne hj]
    exact h j hj

/-- A worker that neither takes a message nor ends leaves the pool sound. -/
theorem Sound.setWorker (h : s.Sound) (i : Fin n) {w : SyncContext M}
    (hfits : w.Fits (takenBy i s.taken) s.closed)
    (hgone : w.phase = .gone → s.phase.ended ∧ s.queue = []) : (s.setWorker i w).Sound where
  arrived := h.arrived
  forwarded := h.forwarded
  workers := forall_setWorker (P := fun j w => w.Fits (takenBy j s.taken) s.closed) hfits
    fun j _ => h.workers j
  gone := forall_setWorker
    (P := fun _ w => w.phase = .gone → s.phase.ended ∧ s.queue = []) hgone fun j _ => h.gone j
  lost := h.lost
  panicked := h.panicked

/-- While the arbiter holds its end of the queue every worker runs. -/
theorem Sound.runs (h : s.Sound) (hphase : s.phase.ended = false) (i : Fin n) :
    (s.workers i).phase.runs := by
  have hgone := h.gone i
  cases hworker : (s.workers i).phase with
  | gone =>
      rw [(hgone hworker).1] at hphase
      cases hphase
  | fresh | waiting | busy => rfl

theorem Sound.lost_eq_nil (h : s.Sound) (hphase : s.phase.ended = false) : s.lost = [] := by
  by_contra hlost
  rw [h.lost hlost] at hphase
  cases hphase

/-- The arbiter's phase changes while no worker has ended, or to one in which the queue has no
sender. -/
theorem Sound.setPhase (h : s.Sound) {phase : ArbiterPhase}
    (hphase : s.phase.ended → phase.ended) : ({ s with phase := phase } : SyncArbiter M n).Sound :=
  { h with
    gone := fun i hgone => ⟨hphase (h.gone i hgone).1, (h.gone i hgone).2⟩
    lost := fun hlost => hphase (h.lost hlost) }

theorem Sound.send (h : s.Sound) (msg : M) (request : Bool) : (s.send msg request).Sound := by
  unfold SyncArbiter.send
  split_ifs
  · refine { h with arrived := ?_ }
    simp only [h.arrived, List.append_assoc]
  · exact h

theorem Sound.cancel (h : s.Sound) (k : ℕ) :
    ({ s with closed := k :: s.closed } : SyncArbiter M n).Sound :=
  { h with workers := fun i => (h.workers i).cancel k }

theorem Sound.forward (h : s.Sound) (hphase : s.phase = .polling) : s.forward.Sound := by
  have hended : s.phase.ended = false := by rw [hphase]; rfl
  have harrived := h.arrived
  rw [h.lost_eq_nil hended, List.append_nil] at harrived
  unfold SyncArbiter.forward
  cases hmsgs : s.msgs with
  | nil =>
      have hchecking : ({ s with phase := .checking } : SyncArbiter M n).Sound :=
        h.setPhase fun hphase => by
          rw [hended] at hphase
          cases hphase
      rwa [hmsgs] at hchecking
  | cons env msgs =>
      have hnone (i : Fin n) : (s.workers i).phase ≠ .gone := fun hgone => by
        have hruns := h.runs hended i
        rw [hgone] at hruns
        cases hruns
      rw [hmsgs] at harrived
      dsimp only
      split_ifs with hruns
      · exact
          { h with
            arrived := by simpa [h.lost_eq_nil hended] using harrived
            forwarded := by simp [h.forwarded]
            gone := fun i hgone => absurd hgone (hnone i) }
      · exact
          { h with
            arrived := by simpa [h.lost_eq_nil hended] using harrived
            gone := fun i hgone => absurd hgone (hnone i)
            lost := fun _ => rfl
            panicked := fun _ => by
              by_contra hn
              exact hruns ⟨⟨0, Nat.pos_of_ne_zero hn⟩, h.runs hended _⟩ }

theorem Sound.drop (h : s.Sound) : s.drop.Sound := by
  unfold SyncArbiter.drop
  cases hphase : s.phase with
  | finished =>
      exact
        { h with
          arrived := by simp [h.arrived]
          gone := fun i hgone => ⟨rfl, (h.gone i hgone).2⟩
          lost := fun _ => rfl }
  | dropped => exact h
  | polling | checking | idle => exact h.setPhase fun _ => rfl

theorem Sound.recv (h : s.Sound) {i : Fin n} (hwaiting : (s.workers i).phase = .waiting) :
    (s.recv i).Sound := by
  unfold SyncArbiter.recv
  cases hqueue : s.queue with
  | nil =>
      dsimp only
      split_ifs with hended
      · exact h.setWorker i ((h.workers i).leave hwaiting) fun _ => ⟨hended, hqueue⟩
      · exact h
  | cons env queue =>
      have hforwarded := h.forwarded
      rw [hqueue] at hforwarded
      refine ⟨h.arrived, ?_, ?_, ?_, h.lost, h.panicked⟩
      · simpa [SyncArbiter.setWorker] using hforwarded
      · refine forall_setWorker
          (P := fun j w => w.Fits (takenBy j (s.taken ++ [(i, env)])) s.closed) ?_ fun j hj => ?_
        · have htaken : takenBy i (s.taken ++ [(i, env)]) = takenBy i s.taken ++ [env] := by
            simp [takenBy]
          rw [htaken]
          exact (h.workers i).recv hwaiting env
        · have htaken : takenBy j (s.taken ++ [(i, env)]) = takenBy j s.taken := by
            simp [takenBy, Ne.symm hj]
          rw [htaken]
          exact h.workers j
      · refine forall_setWorker
          (P := fun _ w => w.phase = .gone → s.phase.ended ∧ queue = []) ?_ fun j _ hgone => ?_
        · intro hgone
          cases hgone
        · exact absurd (hqueue.symm.trans (h.gone j hgone).2) (List.cons_ne_nil env queue)

theorem sound_step (h : s.Sound) (a : SyncAction M n) : (s.step a).Sound := by
  cases a with
  | send msg request => exact h.send msg request
  | cancel k =>
      simp only [step]
      split_ifs
      · exact h.cancel k
      · exact h
  | address i =>
      simp only [step]
      split_ifs
      · exact { h with }
      · exact h
  | disconnect => exact { h with }
  | forward =>
      simp only [step]
      split_ifs with hpolling
      · exact h.forward hpolling
      · exact h
  | check =>
      simp only [step]
      split_ifs with hchecking
      · exact h.setPhase fun hended => by rw [hchecking] at hended; cases hended
      · exact h.setPhase fun _ => rfl
      · exact h
  | wake =>
      simp only [step]
      split_ifs with hidle
      · exact h.setPhase fun hended => by rw [hidle] at hended; cases hended
      · exact h
  | drop => exact h.drop
  | start i stops =>
      exact h.setWorker i ((h.workers i).start stops) fun hgone => h.gone i (start_gone hgone)
  | recv i =>
      simp only [step]
      split
      · exact h.recv ‹_›
      · exact h
  | handle i stops hooks =>
      exact h.setWorker i ((h.workers i).handle stops hooks) fun hgone =>
        h.gone i (handle_gone hgone)

theorem sound_run (as : List (SyncAction M n)) : (run step (new : SyncArbiter M n) as).Sound :=
  invariant_run_of_mem (I := Sound) (fun _ a _ hs => sound_step hs a) sound_new

end Steps

/-- Every message that arrived was taken by one worker, is in the queue, was lost with the arbiter
or is in the mailbox, in this order; messages are lost only with an arbiter that has ended, and its
assertion fails only without workers. Each worker is done with what it took, in that order, up to
the message at hand, and left out only requests that nobody waits for. -/
theorem taken_once (as : List (SyncAction M n)) :
    let s := run step (new : SyncArbiter M n) as
    s.arrived = s.taken.map Prod.snd ++ s.queue ++ s.lost ++ s.msgs ∧
      (s.lost ≠ [] → s.phase.ended) ∧ (s.panicked → n = 0) ∧
      ∀ i, takenBy i s.taken = envelopesOf (s.workers i).log ++ inHand (s.workers i).phase ∧
        ∀ env, .skipped env ∈ (s.workers i).log → env.isClosed s.closed := by
  intro s
  have hsound : s.Sound := sound_run as
  refine ⟨?_, hsound.lost, hsound.panicked, fun i => ?_⟩
  · rw [hsound.arrived, hsound.forwarded]
  · exact ⟨(hsound.workers i).messages.symm, (hsound.workers i).skipped⟩

/-- When a worker of the pool has ended, everything that the arbiter passed on was taken, and a
worker that has ended is done with all it took: it handled every message but the requests that
nobody waits for. -/
theorem ended_pool_drained (as : List (SyncAction M n)) (i : Fin n)
    (h : ((run step (new : SyncArbiter M n) as).workers i).phase = .gone) :
    let s := run step (new : SyncArbiter M n) as
    s.arrived = s.taken.map Prod.snd ++ s.lost ++ s.msgs ∧
      ∀ j, (s.workers j).phase = .gone →
        envelopesOf (s.workers j).log = takenBy j s.taken ∧
        ∀ env ∈ takenBy j s.taken, env.isClosed s.closed = false →
          .handled env ∈ (s.workers j).log := by
  intro s
  have hsound : s.Sound := sound_run as
  refine ⟨?_, fun j hj => ?_⟩
  · rw [hsound.arrived, hsound.forwarded, (hsound.gone i h).2, List.append_nil]
  have hdone : envelopesOf (s.workers j).log = takenBy j s.taken := by
    have hmessages := (hsound.workers j).messages
    simpa [messages, hj, inHand] using hmessages
  refine ⟨hdone, fun env henv hopen => ?_⟩
  rw [← hdone, mem_envelopesOf] at henv
  refine henv.resolve_right fun hskipped => ?_
  rw [(hsound.workers j).skipped env hskipped] at hopen
  cases hopen

/-- A worker handles a message and leaves out a cancelled request after the last address is gone,
and then ends. -/
def lastMessage : List (SyncAction ℕ 1) :=
  [.start 0 false, .send 7 false, .send 8 true, .forward, .forward, .disconnect, .forward, .check,
    .recv 0, .handle 0 false false, .recv 0, .cancel 1, .handle 0 false false, .recv 0]

theorem ended_pool_drained_lastMessage :
    let s := run step new lastMessage
    s.arrived = s.taken.map Prod.snd ++ s.lost ++ s.msgs ∧
      ∀ j, (s.workers j).phase = .gone →
        envelopesOf (s.workers j).log = takenBy j s.taken ∧
        ∀ env ∈ takenBy j s.taken, env.isClosed s.closed = false →
          .handled env ∈ (s.workers j).log :=
  ended_pool_drained lastMessage 0 (by decide)

-- The message comes after the arbiter found its mailbox empty, and no sender is left at the check.
example : (run step (new : SyncArbiter ℕ 1)
    [.start 0 false, .forward, .send 7 false, .disconnect, .check, .drop, .recv 0]).lost =
      [⟨7, none⟩] := by
  decide

/-- The calls of every worker follow the life of its actors: an actor is started, handles messages,
and is asked to stop and stopped before another one is started. -/
theorem calls_in_order (as : List (SyncAction M n)) (i : Fin n) :
    lifeAfter ((run step (new : SyncArbiter M n) as).workers i).log =
      some (lifeOf ((run step (new : SyncArbiter M n) as).workers i).phase) :=
  ((sound_run as).workers i).life

-- An actor that stops in `started` is replaced after a request that it did not handle.
example : ((run step (new : SyncArbiter ℕ 1) [.start 0 true, .send 7 true, .forward, .recv 0,
    .cancel 0, .handle 0 false false]).workers 0).log =
      [.started, .skipped ⟨7, some 0⟩, .stopping, .stopped, .started] := by
  decide

end SyncArbiter

end ActixPura
