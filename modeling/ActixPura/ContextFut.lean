import ActixPura.Runs
import ActixPura.SwapRemove

/-!
# The future that drives an actor

`context_impl.rs`, with `Mailbox::poll` of `mailbox.rs`, `ActorWaitItem::poll` of `context_items.rs`
and `Supervisor::poll` of `supervisor.rs`. A poll is cut at its callbacks: the program counter says
where control stands, a callback may use the context as often as it likes before it returns, and
`advance` lets control go on to the next place. What a callback, a future or the mailbox answers is
the argument of `advance`. Senders come and go at any moment.

The futures themselves are arbitrary. An item is its handle, and a queue of wait futures is its
length. Handles begin anew at a restart, so items and cancellations also carry the number of
restarts before them, and a cancellation the last handle that had been given out. The code never
reads these.
-/

namespace ActixPura

structure ContextFlags where
  started : Bool
  running : Bool
  stopping : Bool
  stopped : Bool
  mbCapChanged : Bool
  deriving DecidableEq

structure ContextItem where
  handle : ℕ
  epoch : ℕ
  deriving DecidableEq

structure Cancellation where
  handle : ℕ
  epoch : ℕ
  given : ℕ
  deriving DecidableEq

/-- The future was spawned with the cancelled handle, and before the call. -/
def Cancellation.Names (c : Cancellation) (item : ContextItem) : Prop :=
  item.handle = c.handle ∧ item.epoch = c.epoch ∧ item.handle ≤ c.given

instance Cancellation.decidableNames (c : Cancellation) (item : ContextItem) :
    Decidable (c.Names item) := by
  unfold Cancellation.Names
  infer_instance

/-- `lastHandle`, `currHandle` and `canceled` are the first, the second and the other entries of the
source's `handles`. -/
structure ContextParts where
  flags : ContextFlags
  wait : ℕ
  items : List ContextItem
  lastHandle : ℕ
  currHandle : ℕ
  canceled : List Cancellation
  epoch : ℕ

structure ContextFut where
  parts : ContextParts
  wait : ℕ
  items : List ContextItem
  connected : Bool

namespace ContextFlags

def onlyRunning : ContextFlags := ⟨false, true, false, false, false⟩

def onlyStopped : ContextFlags := ⟨false, false, false, true, false⟩

def stoppedStarted : ContextFlags := ⟨true, false, false, true, false⟩

def isStopping (flags : ContextFlags) : Bool := flags.stopping || flags.stopped

/-- `ActorState::alive` of the state the flags stand for. -/
def alive (flags : ContextFlags) : Bool := flags.running || !flags.isStopping

end ContextFlags

namespace ContextParts

def new : ContextParts := ⟨.onlyRunning, 0, [], 0, 0, [], 0⟩

def stop (p : ContextParts) : ContextParts :=
  if p.flags.running then { p with flags := { p.flags with running := false, stopping := true } }
  else p

def terminate (p : ContextParts) : ContextParts := { p with flags := .onlyStopped }

def waiting (p : ContextParts) : Bool := p.wait ≠ 0 || p.flags.isStopping

def spawn (p : ContextParts) : ContextParts :=
  { p with
    lastHandle := p.lastHandle + 1
    items := p.items ++ [⟨p.lastHandle + 1, p.epoch⟩] }

def addWait (p : ContextParts) : ContextParts := { p with wait := p.wait + 1 }

def cancellation (p : ContextParts) (handle : ℕ) : Cancellation := ⟨handle, p.epoch, p.lastHandle⟩

def cancelFuture (p : ContextParts) (handle : ℕ) : ContextParts :=
  { p with canceled := p.canceled ++ [p.cancellation handle] }

def setMailboxCapacity (p : ContextParts) : ContextParts :=
  { p with flags := { p.flags with mbCapChanged := true } }

def restart (p : ContextParts) : ContextParts :=
  { p with flags := .onlyRunning, wait := 0, items := [], lastHandle := 0, epoch := p.epoch + 1 }

end ContextParts

inductive ContextEvent
  | started
  | message
  | waitPolled
  | polled (item : ContextItem)
  | canceled (c : Cancellation)
  | removed (item : ContextItem) (c : Cancellation)
  | stop
  | terminate
  | continued
  | stopped
  | pending
  | ready
  | restarting
  deriving DecidableEq

namespace ContextFut

def new (connected : Bool) : ContextFut := ⟨.new, 0, [], connected⟩

def stopping (f : ContextFut) : Bool := f.parts.flags.isStopping

def alive (f : ContextFut) : Bool :=
  if f.parts.flags.stopped then false
  else !f.parts.flags.started || f.connected || f.items ≠ [] || f.wait ≠ 0

/-- `ContextFut::restart` without the call of `restarting`. -/
def restart (f : ContextFut) : ContextFut :=
  { f with wait := 0, items := [], parts := f.parts.restart }

/-- Whether `merge` answers that it modified something. -/
def modified (f : ContextFut) : Bool :=
  f.parts.wait ≠ 0 || f.parts.items ≠ [] || f.parts.flags.mbCapChanged || f.parts.canceled ≠ []

def merge (f : ContextFut) : ContextFut :=
  { f with
    wait := f.wait + f.parts.wait
    items := f.items ++ f.parts.items
    parts := { f.parts with
      wait := 0
      items := []
      flags := { f.parts.flags with mbCapChanged := false } } }

def removeItemByHandle (handle : ℕ) : List ContextItem → List ContextItem × List ContextItem :=
  removeWhere fun item => item.handle = handle

/-- One cancellation of the clean-up. The context's own items are looked at only when the merged
ones had none with the handle. -/
def reap (f : ContextFut) (c : Cancellation) : ContextFut × List ContextItem :=
  let merged := removeItemByHandle c.handle f.items
  if merged.2 ≠ [] then ({ f with items := merged.1 }, merged.2)
  else
    let added := removeItemByHandle c.handle f.parts.items
    ({ f with items := merged.1, parts := { f.parts with items := added.1 } }, added.2)

def reapAll : List Cancellation → ContextFut → ContextFut × List ContextEvent
  | [], f => (f, [])
  | c :: cs, f =>
    let first := f.reap c
    let rest := reapAll cs first.1
    (rest.1, first.2.map (fun item => .removed item c) ++ rest.2)

def cleanCanceledHandle (f : ContextFut) : ContextFut × List ContextEvent :=
  reapAll f.parts.canceled.reverse { f with parts := { f.parts with canceled := [] } }

def mergeIfWaiting (f : ContextFut) : ContextFut := if f.parts.waiting then f.merge else f

def setCurrHandle (f : ContextFut) (handle : ℕ) : ContextFut :=
  { f with parts := { f.parts with currHandle := handle } }

def setFlags (f : ContextFut) (flags : ContextFlags) : ContextFut :=
  { f with parts := { f.parts with flags := flags } }

end ContextFut

/-- Where control stands: in a callback, between two polls, or at a place of the loop. `creating` is
the closure of `Actor::create`, and `inStopping` says whether a stop was asked for. -/
inductive ContextPc
  | creating
  | idle
  | inStarted
  | outer
  | inWait
  | mailbox
  | inMessage
  | afterMailbox
  | items (idx : ℕ)
  | inItem (idx : ℕ)
  | endItems
  | check
  | inStopping (requested : Bool)
  | inStopped
  | done
  | inRestarting
  | finished
  deriving DecidableEq

def ContextPc.callback : ContextPc → Bool
  | .creating | .inStarted | .inWait | .inMessage | .inItem _ | .inStopping _ | .inStopped
  | .inRestarting => true
  | _ => false

inductive ContextOp
  | spawn
  | wait
  | cancelFuture (handle : ℕ)
  | stop
  | terminate
  | setMailboxCapacity

def ContextOp.apply (p : ContextParts) : ContextOp → ContextParts
  | .spawn => p.spawn
  | .wait => p.addWait
  | .cancelFuture handle => p.cancelFuture handle
  | .stop => p.stop
  | .terminate => p.terminate
  | .setMailboxCapacity => p.setMailboxCapacity

def ContextOp.events (p : ContextParts) : ContextOp → List ContextEvent
  | .cancelFuture handle => [.canceled (p.cancellation handle)]
  | .stop => [.stop]
  | .terminate => [.terminate]
  | .spawn | .wait | .setMailboxCapacity => []

inductive ContextAction
  | call (op : ContextOp)
  | connect (connected : Bool)
  | advance (answer : Bool)

/-- The future, the next place and what happened on the way there. -/
structure ContextMove where
  fut : ContextFut
  pc : ContextPc
  events : List ContextEvent

namespace ContextFut

variable (f : ContextFut)

def startPoll : ContextMove :=
  if f.parts.flags.started then ⟨f, .outer, []⟩
  else ⟨f.setFlags { f.parts.flags with started := true }, .inStarted, [.started]⟩

def afterStarted : ContextMove :=
  if f.modified then
    let cleaned := f.merge.cleanCanceledHandle
    ⟨cleaned.1, .outer, cleaned.2⟩
  else ⟨f.merge, .outer, []⟩

def pollWait : ContextMove :=
  if f.wait ≠ 0 ∧ f.stopping = false then ⟨f, .inWait, [.waitPolled]⟩ else ⟨f, .mailbox, []⟩

/-- A wait future that is pending counts as ready when the actor is no longer alive. -/
def afterWait (ready : Bool) : ContextMove :=
  if ready = false ∧ f.parts.flags.alive = true then ⟨f, .idle, [.pending]⟩
  else ⟨merge { f with wait := f.wait - 1 }, .outer, []⟩

def pollMailbox (arrived : Bool) : ContextMove :=
  if f.parts.waiting = false ∧ arrived = true then ⟨f, .inMessage, [.message]⟩
  else ⟨f, .afterMailbox, []⟩

def afterMailbox : ContextMove :=
  if f.wait ≠ 0 ∧ f.stopping = false then ⟨f, .outer, []⟩ else ⟨f, .items 0, []⟩

def pollItems (idx : ℕ) : ContextMove :=
  match f.items[idx]? with
  | none => ⟨f, .endItems, []⟩
  | some item =>
    if f.stopping then ⟨f, .endItems, []⟩
    else ⟨f.setCurrHandle item.handle, .inItem idx, [.polled item]⟩

def afterPending (idx : ℕ) : ContextMove :=
  let merged := f.mergeIfWaiting
  if merged.parts.canceled ≠ [] then
    let cleaned := merged.cleanCanceledHandle
    ⟨cleaned.1, .outer, cleaned.2⟩
  else if merged.wait ≠ 0 ∧ merged.stopping = false then
    ⟨{ merged with items := swapWithLast merged.items idx }, .outer, []⟩
  else ⟨merged, .items (idx + 1), []⟩

def afterReady (idx : ℕ) : ContextMove :=
  let merged := mergeIfWaiting { f with items := swapRemove f.items idx }
  if merged.wait ≠ 0 ∧ merged.stopping = false then ⟨merged, .outer, []⟩
  else ⟨merged, .items idx, []⟩

def truncateCanceled : ContextFut :=
  if f.items = [] then { f with parts := { f.parts with canceled := [] } } else f

def endItems : ContextMove :=
  let merged := (f.setCurrHandle 0).merge
  if f.modified = true ∧ merged.parts.flags.stopping = false then
    ⟨merged.truncateCanceled, .outer, []⟩
  else ⟨merged, .check, []⟩

def check : ContextMove :=
  if f.parts.flags.running then
    if f.alive then ⟨f, .idle, [.pending]⟩ else ⟨f, .inStopping false, []⟩
  else if f.parts.flags.stopping then ⟨f, .inStopping true, []⟩
  else if f.parts.flags.stopped then ⟨f, .inStopped, [.stopped]⟩
  else ⟨f, .idle, [.pending]⟩

def afterStopping (requested stop : Bool) : ContextMove :=
  if stop then ⟨f.setFlags .stoppedStarted, .inStopped, [.stopped]⟩
  else if requested then
    ⟨f.setFlags { f.parts.flags with stopping := false, running := true }, .outer, [.continued]⟩
  else ⟨f, .idle, [.continued, .pending]⟩

/-- `Supervisor::poll` after a poll that was ready. -/
def supervise : ContextMove :=
  if f.connected then ⟨f.restart, .inRestarting, [.restarting]⟩ else ⟨f, .finished, []⟩

def move (answer : Bool) : ContextPc → ContextMove
  | .creating => ⟨f, .idle, []⟩
  | .idle => f.startPoll
  | .inStarted => f.afterStarted
  | .outer => f.pollWait
  | .inWait => f.afterWait answer
  | .mailbox => f.pollMailbox answer
  | .inMessage => ⟨f, .mailbox, []⟩
  | .afterMailbox => f.afterMailbox
  | .items idx => f.pollItems idx
  | .inItem idx => if answer then f.afterReady idx else f.afterPending idx
  | .endItems => f.endItems
  | .check => f.check
  | .inStopping requested => f.afterStopping requested answer
  | .inStopped => ⟨f, .done, [.ready]⟩
  | .done => f.supervise
  | .inRestarting => ⟨f, .idle, []⟩
  | .finished => ⟨f, .finished, []⟩

end ContextFut

structure ContextRun where
  fut : ContextFut
  pc : ContextPc
  log : List ContextEvent

namespace ContextRun

def new (connected : Bool) : ContextRun := ⟨.new connected, .creating, []⟩

def step (s : ContextRun) : ContextAction → ContextRun
  | .call op =>
    if s.pc.callback then
      { s with
        fut := { s.fut with parts := op.apply s.fut.parts }
        log := s.log ++ op.events s.fut.parts }
    else s
  | .connect connected => { s with fut := { s.fut with connected := connected } }
  | .advance answer =>
    let m := s.fut.move answer s.pc
    ⟨m.fut, m.pc, s.log ++ m.events⟩

end ContextRun

end ActixPura
