import ActixPura.Runs

/-!
# The broker of `actix-broker`

`broker.rs` of `actix-broker`, with `Recipient` and `MsgRequest` of `actix`. The broker keeps the
recipients that have subscribed to each type of message. A message that is issued goes to all of
them but the ones of its issuer: the handler drains the list of the type and puts every recipient
back, `IssueAsync` at once and `IssueSync` when the recipient has answered.

A handler is cut at its sends, so that a mailbox may close at any point of the loop. Whether a
sender is parked depends on what it has sent before and on the receiver, and is left open at each
send; that a mailbox which has closed stays closed is all that is said about the receivers. A wait
future holds the broker back: `Mailbox::poll` handles no message as long as there is one, and the
context polls the one that was registered last.

A recipient is numbered by the subscription it was made for, and an issued message by its place
among the messages issued. Besides the broker the state of a run keeps what was subscribed, issued
and sent, which the source does not have.
-/

namespace ActixPura.ActixBroker

abbrev TypeId := ℕ

/-- A `Box<dyn Any>`, which knows the type of what is in it. -/
structure Boxed (α : Type*) where
  type : TypeId
  value : α

def Boxed.downcast {α : Type*} (type : TypeId) (b : Boxed α) : Option α :=
  if b.type = type then some b.value else none

inductive SendError
  | full
  | closed

structure Recipient where
  mailbox : ℕ
  number : ℕ
  deriving DecidableEq

/-- The future of a send: `rx` tells that the message is in the mailbox and its answer awaited, and
`info` is the message while it still has to be sent. -/
structure RecipientRequest (V : Type*) where
  rx : Bool
  info : Option V

/-- `AddressSender::send` and `AddressSender::try_send`. -/
def trySend (parked isOpen : Bool) : Except SendError Unit :=
  if parked then .error .full else if isOpen then .ok () else .error .closed

namespace RecipientRequest

variable {V : Type*}

/-- `Recipient::send`, with the message that was queued. -/
def send (parked isOpen : Bool) (msg : V) : RecipientRequest V × Option V :=
  match trySend parked isOpen with
  | .ok _ => (⟨true, none⟩, some msg)
  | .error .full => (⟨false, some msg⟩, none)
  | .error .closed => (⟨false, none⟩, none)

/-- One poll, with the message that was queued and whether the future is ready. An answered receiver
is one that has got the answer or lost its sender. -/
def poll (r : RecipientRequest V) (parked isOpen answered : Bool) :
    RecipientRequest V × Option V × Bool :=
  match r.info with
  | none => (r, none, !r.rx || answered)
  | some msg =>
    match trySend parked isOpen with
    | .ok _ => (⟨true, none⟩, some msg, answered)
    | .error .full => (r, none, false)
    | .error .closed => (⟨r.rx, none⟩, none, true)

end RecipientRequest

structure Broker (V : Type*) where
  subMap : TypeId → Option (List (TypeId × Boxed Recipient))
  msgMap : TypeId → Option (Boxed V)

namespace Broker

variable {V : Type*}

def new : Broker V := ⟨fun _ => none, fun _ => none⟩

def takeSubs (b : Broker V) (m : TypeId) : Option (List (TypeId × Recipient)) × Broker V :=
  match b.subMap m with
  | none => (none, b)
  | some subs =>
    (some (subs.filterMap fun s => (s.2.downcast m).map fun sub => (s.1, sub)),
      { b with subMap := Function.update b.subMap m (some []) })

def addSub (b : Broker V) (m : TypeId) (sub : Recipient) (id : TypeId) : Broker V :=
  match b.subMap m with
  | some subs => { b with subMap := Function.update b.subMap m (some (subs ++ [(id, ⟨m, sub⟩)])) }
  | none => { b with subMap := Function.update b.subMap m (some [(id, ⟨m, sub⟩)]) }

def getPreviousMsg (b : Broker V) (m : TypeId) : Option V :=
  (b.msgMap m).bind (Boxed.downcast m)

def setMsg (b : Broker V) (m : TypeId) (msg : V) : Broker V :=
  { b with msgMap := Function.update b.msgMap m (some ⟨m, msg⟩) }

def handleSubscribeAsync (b : Broker V) (m : TypeId) (sub : Recipient) (id : TypeId) : Broker V :=
  b.addSub m sub id

def handleSubscribeSync (b : Broker V) (m : TypeId) (sub : Recipient) (id : TypeId) :
    Broker V × Option V :=
  (b.addSub m sub id, (b.addSub m sub id).getPreviousMsg m)

end Broker

/-- An issued message: its type, the type of the actor that issued it, and how many subscriptions
there were before. -/
structure Issue (V : Type*) where
  number : ℕ
  madeBefore : ℕ
  type : TypeId
  message : V
  issuer : TypeId

/-- A wait future of `IssueSync`, with what its completion puts back. -/
structure WaitItem (V : Type*) where
  call : Issue V
  request : RecipientRequest V
  id : TypeId
  recipient : Recipient

/-- Where the handler of an issued message stands: in its loop with the recipients that are left, or
in the branch that sends again to one that was full. -/
inductive Handler (V : Type*)
  | idle
  | issueAsync (call : Issue V) (subs : List (TypeId × Recipient))
  | doSend (call : Issue V) (id : TypeId) (s : Recipient) (subs : List (TypeId × Recipient))
  | issueSync (call : Issue V) (subs : List (TypeId × Recipient))

def Handler.isIdle {V : Type*} : Handler V → Bool
  | .idle => true
  | _ => false

structure Subscription where
  type : TypeId
  id : TypeId
  recipient : Recipient
  deriving DecidableEq

structure Delivery (V : Type*) where
  issue : ℕ
  message : V
  recipient : Recipient

inductive BrokerAction (V : Type*)
  | subscribeAsync (m : TypeId) (mailbox : ℕ) (id : TypeId)
  | subscribeSync (m : TypeId) (mailbox : ℕ) (id : TypeId)
  | issueAsync (m : TypeId) (message : V) (issuer : TypeId)
  | issueSync (m : TypeId) (message : V) (issuer : TypeId)
  | advance (parked : Bool)
  | poll (parked answered : Bool)
  | close (mailbox : ℕ)

structure BrokerRun (V : Type*) where
  broker : Broker V
  handler : Handler V
  wait : List (WaitItem V)
  isOpen : ℕ → Bool
  made : List Subscription
  issues : List (Issue V)
  sent : List (Delivery V)
  answers : List (ℕ × Option V)

namespace BrokerRun

variable {V : Type*}

def new : BrokerRun V := ⟨.new, .idle, [], fun _ => true, [], [], [], []⟩

def nextRecipient (s : BrokerRun V) (mailbox : ℕ) : Recipient := ⟨mailbox, s.made.length⟩

/-- A subscription has been handled, which leaves the broker as given. -/
def subscribe (s : BrokerRun V) (m mailbox id : ℕ) (broker : Broker V) : BrokerRun V :=
  { s with broker, made := s.made ++ [⟨m, id, s.nextRecipient mailbox⟩] }

def nextIssue (s : BrokerRun V) (m : TypeId) (message : V) (issuer : TypeId) : Issue V :=
  ⟨s.issues.length, s.made.length, m, message, issuer⟩

/-- An issued message reaches its handler, which takes the subscriptions of its type. -/
def issue (s : BrokerRun V) (call : Issue V) (loop : List (TypeId × Recipient) → Handler V) :
    BrokerRun V :=
  { s with
    broker := (s.broker.takeSubs call.type).2
    handler := loop ((s.broker.takeSubs call.type).1.getD [])
    issues := s.issues ++ [call] }

/-- The message, if there is one, is pushed to the queue of the recipient. -/
def queue (s : BrokerRun V) (call : Issue V) (sub : Recipient) (message : Option V) :
    BrokerRun V :=
  { s with sent := s.sent ++ (message.map fun msg => ⟨call.number, msg, sub⟩).toList }

def addSub (s : BrokerRun V) (m : TypeId) (sub : Recipient) (id : TypeId) : BrokerRun V :=
  { s with broker := s.broker.addSub m sub id }

def setMsg (s : BrokerRun V) (call : Issue V) : BrokerRun V :=
  { s with broker := s.broker.setMsg call.type call.message }

def goto (s : BrokerRun V) (handler : Handler V) : BrokerRun V := { s with handler }

/-- The next step of the handler, up to its next send. -/
def advance (s : BrokerRun V) (parked : Bool) : BrokerRun V :=
  match s.handler with
  | .idle => s
  | .issueAsync call [] => (s.setMsg call).goto .idle
  | .issueAsync call ((id, sub) :: subs) =>
    if id = call.issuer then (s.addSub call.type sub id).goto (.issueAsync call subs)
    else
      match trySend parked (s.isOpen sub.mailbox) with
      | .ok _ =>
        ((s.queue call sub (some call.message)).addSub call.type sub id).goto
          (.issueAsync call subs)
      | .error .full => s.goto (.doSend call id sub subs)
      | .error .closed => s.goto (.issueAsync call subs)
  | .doSend call id sub subs =>
    let message := if s.isOpen sub.mailbox then some call.message else none
    ((s.queue call sub message).addSub call.type sub id).goto (.issueAsync call subs)
  | .issueSync call [] => (s.setMsg call).goto .idle
  | .issueSync call ((id, sub) :: subs) =>
    if id = call.issuer then (s.addSub call.type sub id).goto (.issueSync call subs)
    else
      let (request, message) := RecipientRequest.send parked (s.isOpen sub.mailbox) call.message
      { (s.queue call sub message).goto (.issueSync call subs) with
        wait := ⟨call, request, id, sub⟩ :: s.wait }

/-- A poll of the wait future that was registered last. One that is ready puts its recipient back,
whatever the answer was. -/
def pollWait (s : BrokerRun V) (parked answered : Bool) : BrokerRun V :=
  match s.wait with
  | [] => s
  | item :: items =>
    match item.request.poll parked (s.isOpen item.recipient.mailbox) answered with
    | (_, message, true) =>
      { (s.queue item.call item.recipient message).addSub item.call.type item.recipient item.id with
        wait := items }
    | (request, message, false) =>
      { s.queue item.call item.recipient message with wait := { item with request } :: items }

def step (s : BrokerRun V) : BrokerAction V → BrokerRun V
  | .subscribeAsync m mailbox id =>
    s.subscribe m mailbox id (s.broker.handleSubscribeAsync m (s.nextRecipient mailbox) id)
  | .subscribeSync m mailbox id =>
    let (broker, answer) := s.broker.handleSubscribeSync m (s.nextRecipient mailbox) id
    { s.subscribe m mailbox id broker with answers := s.answers ++ [(s.made.length, answer)] }
  | .issueAsync m message issuer =>
    let call := s.nextIssue m message issuer
    s.issue call (.issueAsync call)
  | .issueSync m message issuer =>
    let call := s.nextIssue m message issuer
    s.issue call (.issueSync call)
  | .advance parked => s.advance parked
  | .poll parked answered => s.pollWait parked answered
  | .close mailbox => { s with isOpen := Function.update s.isOpen mailbox false }

/-- The broker is free for the next message. -/
def AtRest (s : BrokerRun V) : Prop := s.handler.isIdle = true ∧ s.wait = []

def Admits (s : BrokerRun V) : BrokerAction V → Prop
  | .subscribeAsync _ _ _ | .subscribeSync _ _ _ | .issueAsync _ _ _ | .issueSync _ _ _ => s.AtRest
  | .advance _ => True
  | .poll _ _ => s.handler.isIdle = true
  | .close _ => True

end BrokerRun
end ActixPura.ActixBroker
