import ActixPura.MpscQueue

/-!
# The bounded channel of a mailbox

`Channel` is the shared state of `channel.rs` with the progress of everyone who uses it. A send
goes through its accesses one by one: the test for a parked sender, the increment of the state
word, the load of the buffer size, `park`, the two halves of a push and the wake-up. The receiver
does the same for `poll_next`, `set_capacity` and its drop. One action is one access, so that a
run is any interleaving of any number of sends, on any number of handles, with the receiver.

The two queues are the abstract queues of `MpscQueue`, and `popSpin` is a pop that is repeated
until it has an answer. The state word is the number that the source masks and shifts.
-/

namespace ActixPura

namespace MailboxChannel

open Runs MpscQueue

/-! ## The state word -/

structure State where
  isOpen : Bool
  numMessages : ℕ
  deriving Repr, DecidableEq

def openMask : ℕ := 2 ^ 63

def maxCapacity : ℕ := 2 ^ 63 - 1

def State.isClosed (s : State) : Bool := !s.isOpen && s.numMessages == 0

@[irreducible] def decodeState (num : ℕ) : State :=
  ⟨num &&& openMask == openMask, num &&& maxCapacity⟩

@[irreducible] def encodeState (s : State) : ℕ :=
  if s.isOpen then s.numMessages ||| openMask else s.numMessages

/-- `fetch_sub(1)`, which wraps at zero. -/
@[irreducible] def fetchSub (num : ℕ) : ℕ := if num = 0 then 2 ^ 64 - 1 else num - 1

/-- `fetch_and(!OPEN_MASK)`. -/
@[irreducible] def clearOpen (num : ℕ) : ℕ := num &&& maxCapacity

/-! ## Senders, sends and the receiver -/

/-- A handle, with its `sender_task` and its `maybe_parked`. -/
structure Sender where
  alive : Bool
  isParked : Bool
  maybeParked : Bool
  deriving Repr, DecidableEq

def Sender.new : Sender := ⟨true, false, false⟩

inductive SendKind where
  | send
  | trySend (park : Bool)
  | doSend
  deriving Repr, DecidableEq

def SendKind.parks : SendKind → Bool
  | .send => true
  | .trySend park => park
  | .doSend => false

inductive Outcome where
  | accepted
  | full
  | closed
  deriving Repr, DecidableEq

/-- The next access of a send. -/
inductive SendPc where
  | polling
  | locking
  | incrementing
  | measuring (numMessages : ℕ)
  | parking
  | enqueueing
  | linkingTask
  | confirming
  | flagging (isOpen : Bool)
  | pushing
  | linking
  | signalling
  | returned (outcome : Outcome)
  deriving Repr, DecidableEq

structure Send (τ : Type) where
  sender : ℕ
  kind : SendKind
  message : τ
  pc : SendPc
  deriving Repr, DecidableEq

/-- Where `next_message` is called: twice in `poll_next` and in the last loop of `Drop`. -/
inductive Caller where
  | first
  | second
  | drain
  deriving Repr, DecidableEq

/-- Where the parked queue is popped: in `unpark_one` for a message, and in the loops of
`set_capacity` and of `Drop`. -/
inductive Unparking (τ : Type) where
  | message (caller : Caller) (m : τ)
  | raising
  | closing
  deriving Repr, DecidableEq

/-- The next access of the receiver. -/
inductive Receiver (τ : Type) where
  | idle
  | next (caller : Caller)
  | unpark (why : Unparking τ)
  | notify (sender : ℕ) (why : Unparking τ)
  | decrement (caller : Caller) (m : τ)
  | check (caller : Caller)
  | register
  | recheck
  | close
  | gone
  deriving Repr, DecidableEq

inductive Polled (τ : Type) where
  | item (m : τ)
  | ended
  | pending
  deriving Repr, DecidableEq

/-- `waker` says whether the receiver's waker is registered, `woken` whether it was used since the
last poll began, and `asleep` whether that poll answered `Pending`. The history variable `pushed`
holds the sends in the order in which their messages entered the queue. -/
structure Channel (τ : Type) where
  buffer : ℕ
  state : ℕ
  messageQueue : List (Cell τ)
  parkedQueue : List (Cell ℕ)
  numSenders : ℕ
  senders : List Sender
  sends : List (Send τ)
  lastDrops : ℕ
  receiver : Receiver τ
  waker : Bool
  woken : Bool
  asleep : Bool
  polls : List (Polled τ)
  dropped : List τ
  pushed : List ℕ
  deriving Repr, DecidableEq

inductive Action (τ : Type) where
  | send (sender : ℕ) (kind : SendKind) (message : τ)
  | advance (send : ℕ)
  | clone
  | dropSender (sender : ℕ)
  | wakeLast
  | poll
  | resize (cap : ℕ)
  | close
  | recv
  deriving Repr, DecidableEq

variable {τ : Type}

namespace Channel

def channel (τ : Type) (buffer : ℕ) : Channel τ where
  buffer := buffer
  state := openMask
  messageQueue := []
  parkedQueue := []
  numSenders := 1
  senders := [.new]
  sends := []
  lastDrops := 0
  receiver := .idle
  waker := false
  woken := false
  asleep := false
  polls := []
  dropped := []
  pushed := []

def word (c : Channel τ) : State := decodeState c.state

def isParked (c : Channel τ) (sender : ℕ) : Bool :=
  match c.senders[sender]? with
  | none => false
  | some s => s.isParked

def maybeParked (c : Channel τ) (sender : ℕ) : Bool :=
  match c.senders[sender]? with
  | none => false
  | some s => s.maybeParked

def setParked (c : Channel τ) (sender : ℕ) (parked : Bool) : Channel τ :=
  { c with senders := c.senders.modify sender fun s => { s with isParked := parked } }

def setMaybeParked (c : Channel τ) (sender : ℕ) (parked : Bool) : Channel τ :=
  { c with senders := c.senders.modify sender fun s => { s with maybeParked := parked } }

/-- `AtomicWaker::wake`. -/
def wake (c : Channel τ) : Channel τ :=
  if c.waker then { c with waker := false, woken := true } else c

def maxSenders (c : Channel τ) : ℕ := maxCapacity - c.buffer

/-! ## The sending side -/

def goto (c : Channel τ) (i : ℕ) (pc : SendPc) : Channel τ :=
  { c with sends := c.sends.modify i fun s => { s with pc := pc } }

/-- The successful exchange of `inc_num_messages`, with the new number of messages. -/
def incNumMessages (c : Channel τ) : Option (ℕ × Channel τ) :=
  let state := c.word
  if state.isOpen then
    let next : State := { state with numMessages := state.numMessages + 1 }
    some (next.numMessages, { c with state := encodeState next })
  else none

def increment (c : Channel τ) (i : ℕ) (s : Send τ) : Channel τ :=
  match c.incNumMessages with
  | none => c.goto i (.returned .closed)
  | some (n, c') =>
    match s.kind with
    | .doSend => c'.goto i .pushing
    | _ => c'.goto i (.measuring n)

def advance (c : Channel τ) (i : ℕ) (s : Send τ) : Channel τ :=
  match s.pc with
  | .polling => c.goto i (if c.maybeParked s.sender then .locking else .incrementing)
  | .locking =>
    if c.isParked s.sender then c.goto i (.returned .full)
    else (c.setMaybeParked s.sender false).goto i .incrementing
  | .incrementing => c.increment i s
  | .measuring n =>
    c.goto i (if c.buffer ≠ 0 ∧ c.buffer ≤ n ∧ s.kind.parks then .parking else .pushing)
  | .parking => (c.setParked s.sender true).goto i .enqueueing
  | .enqueueing =>
    goto { c with parkedQueue := c.parkedQueue ++ [⟨s.sender, some i⟩] } i .linkingTask
  | .linkingTask =>
    goto { c with parkedQueue := c.parkedQueue.map (Cell.link i) } i .confirming
  | .confirming => c.goto i (.flagging c.word.isOpen)
  | .flagging isOpen => (c.setMaybeParked s.sender isOpen).goto i .pushing
  | .pushing =>
    goto { c with
      messageQueue := c.messageQueue ++ [⟨s.message, some i⟩]
      pushed := c.pushed ++ [i] } i .linking
  | .linking =>
    goto { c with messageQueue := c.messageQueue.map (Cell.link i) } i .signalling
  | .signalling => c.wake.goto i (.returned .accepted)
  | .returned _ => c

def start (c : Channel τ) (sender : ℕ) (kind : SendKind) (message : τ) : Channel τ :=
  let pc := match kind with
    | .doSend => .incrementing
    | _ => .polling
  { c with sends := c.sends ++ [⟨sender, kind, message, pc⟩] }

/-- `Clone for AddressSender` and the functions `sender`, which panic at the limit. -/
def clone (c : Channel τ) : Channel τ :=
  if c.numSenders = c.maxSenders then c
  else { c with numSenders := c.numSenders + 1, senders := c.senders ++ [.new] }

/-- `Drop for AddressSender`; the last one still has to wake the receiver. -/
def dropSender (c : Channel τ) (sender : ℕ) : Channel τ :=
  { c with
    numSenders := c.numSenders - 1
    senders := c.senders.modify sender fun s => { s with alive := false }
    lastDrops := if c.numSenders = 1 then c.lastDrops + 1 else c.lastDrops }

/-! ## The receiving side -/

/-- `next_message` returns a message. -/
def deliver (c : Channel τ) (caller : Caller) (m : τ) : Channel τ :=
  match caller with
  | .drain => { c with dropped := c.dropped ++ [m], receiver := .next .drain }
  | .first | .second => { c with polls := c.polls ++ [.item m], receiver := .idle }

/-- `next_message` finds the queue empty and looks at the state. -/
def empty (c : Channel τ) (caller : Caller) : Channel τ :=
  match caller, c.word.isClosed with
  | .drain, true => { c with receiver := .gone }
  | .drain, false => { c with receiver := .recheck }
  | .first, true | .second, true => { c with polls := c.polls ++ [.ended], receiver := .idle }
  | .first, false => { c with receiver := .register }
  | .second, false => { c with polls := c.polls ++ [.pending], asleep := true, receiver := .idle }

def unparked (c : Channel τ) : Unparking τ → Channel τ
  | .message caller m => { c with receiver := .decrement caller m }
  | .raising => { c with receiver := .idle }
  | .closing => { c with receiver := .next .drain }

def notify (c : Channel τ) (sender : ℕ) : Unparking τ → Channel τ
  | .message caller m => { c.setParked sender false with receiver := .decrement caller m }
  | why => { c.setParked sender false with receiver := .unpark why }

def setClosed (c : Channel τ) : Channel τ :=
  if c.word.isOpen then { c with state := clearOpen c.state } else c

def recv (c : Channel τ) : Channel τ :=
  match c.receiver with
  | .idle | .gone => c
  | .next caller =>
    match popSpin c.messageQueue with
    | .value m rest => { c with messageQueue := rest, receiver := .unpark (.message caller m) }
    | .empty => { c with receiver := .check caller }
    | .spinning => c
  | .unpark why =>
    match popSpin c.parkedQueue with
    | .value s rest => { c with parkedQueue := rest, receiver := .notify s why }
    | .empty => c.unparked why
    | .spinning => c
  | .notify s why => c.notify s why
  | .decrement caller m => { c.deliver caller m with state := fetchSub c.state }
  | .check caller => c.empty caller
  | .register => { c with waker := true, receiver := .next .second }
  | .recheck => { c with receiver := if c.word.isClosed then .gone else .next .drain }
  | .close => { c.setClosed with receiver := .unpark .closing }

def setCapacity (c : Channel τ) (cap : ℕ) : Channel τ :=
  { c with buffer := cap, receiver := if c.buffer < cap then .unpark .raising else .idle }

/-! ## Runs -/

def step (c : Channel τ) : Action τ → Channel τ
  | .send sender kind message => c.start sender kind message
  | .advance i =>
    match c.sends[i]? with
    | none => c
    | some s => c.advance i s
  | .clone => c.clone
  | .dropSender sender => c.dropSender sender
  | .wakeLast => { c.wake with lastDrops := c.lastDrops - 1 }
  | .poll => { c with receiver := .next .first, woken := false, asleep := false }
  | .resize cap => c.setCapacity cap
  | .close => { c with receiver := .close }
  | .recv => c.recv

end Channel

def SendPc.Returned : SendPc → Prop
  | .returned _ => True
  | _ => False

instance : DecidablePred SendPc.Returned
  | .returned _ => isTrue trivial
  | .polling | .locking | .incrementing | .measuring _ | .parking | .enqueueing | .linkingTask
  | .confirming | .flagging _ | .pushing | .linking | .signalling => isFalse id

/-- A handle is not dropped while a send borrows it. A message needs memory, of which there is less
than the state word can count. -/
def Channel.Offered (c : Channel τ) : Action τ → Prop
  | .send sender _ _ => ∃ s, c.senders[sender]? = some s ∧ s.alive
  | .advance i => ∃ s, c.sends[i]? = some s ∧ ¬s.pc.Returned ∧
      (s.pc = .incrementing → c.word.numMessages < maxCapacity)
  | .clone => True
  | .dropSender sender => (∃ s, c.senders[sender]? = some s ∧ s.alive) ∧
      ∀ s ∈ c.sends, s.sender = sender → s.pc.Returned
  | .wakeLast => c.lastDrops ≠ 0
  | .poll | .close => c.receiver = .idle
  | .resize _ => c.receiver = .idle
  | .recv => c.receiver ≠ .idle ∧ c.receiver ≠ .gone

instance decidableSome {α : Type*} {p : α → Prop} [DecidablePred p] :
    ∀ o : Option α, Decidable (∃ x, o = some x ∧ p x)
  | none => isFalse (by simp)
  | some x => decidable_of_iff (p x) (by simp)

instance (c : Channel τ) [DecidableEq τ] : ∀ a, Decidable (c.Offered a)
  | .send _ _ _ => inferInstanceAs (Decidable (∃ s, _ = some s ∧ _))
  | .advance _ => inferInstanceAs (Decidable (∃ s, _ = some s ∧ _))
  | .clone => isTrue trivial
  | .dropSender _ => inferInstanceAs (Decidable (_ ∧ _))
  | .wakeLast => inferInstanceAs (Decidable (_ ≠ _))
  | .poll | .close | .resize _ => inferInstanceAs (Decidable (_ = _))
  | .recv => inferInstanceAs (Decidable (_ ∧ _))

end MailboxChannel

end ActixPura
