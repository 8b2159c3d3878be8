import ActixPura.ActixBroker
import ActixPura.PermUpTo

/-!
# What the broker has in hand

What a message drains from the list of its type is afterwards with its handler or with a wait
future, until it is put back. `held` is all of it together, and `due` is what an issued message has
been sent to together with what it still has to be sent to.

`Moves` says what a step of the handler or a poll of a wait future can do: both are kept, up to
recipients whose mailbox is closed.
-/

namespace ActixPura.ActixBroker

variable {V α : Type*}

section Sending

variable {parked isOpen answered : Bool} {lost : α → Prop} {x : α} {msg msg' : V}

theorem isOpen_of_trySend_ok {u : Unit} (h : trySend parked isOpen = .ok u) : isOpen = true := by
  cases parked <;> cases isOpen <;> simp_all [trySend]

theorem closed_of_trySend (h : trySend parked isOpen = .error .closed) : isOpen = false := by
  cases parked <;> cases isOpen <;> simp_all [trySend]

/-- As many copies of the element as there is a message. -/
def copies (message : Option V) (x : α) : List α := message.toList.map fun _ => x

@[simp] theorem copies_none : copies (none : Option V) x = [] := rfl

@[simp] theorem copies_some : copies (some msg) x = [x] := rfl

namespace RecipientRequest

theorem copies_send (hlost : isOpen = false → lost x) :
    PermUpTo lost (copies (send parked isOpen msg).2 x ++ copies (send parked isOpen msg).1.info x)
      [x] := by
  unfold send
  cases h : trySend parked isOpen with
  | ok u => exact PermUpTo.refl _
  | error e =>
      cases e with
      | full => exact PermUpTo.refl _
      | closed => exact PermUpTo.lose (hlost (closed_of_trySend h))

theorem copies_poll (r : RecipientRequest V) (parked isOpen answered : Bool) (x : α)
    (hlost : isOpen = false → lost x) :
    PermUpTo lost (copies (r.poll parked isOpen answered).2.1 x ++
      copies (r.poll parked isOpen answered).1.info x) (copies r.info x) := by
  unfold poll
  cases hinfo : r.info with
  | none =>
      rw [hinfo]
      exact PermUpTo.refl _
  | some msg =>
      cases h : trySend parked isOpen with
      | ok u => exact PermUpTo.refl _
      | error e =>
          cases e with
          | full =>
              simp only [hinfo]
              exact PermUpTo.refl _
          | closed => exact PermUpTo.lose (hlost (closed_of_trySend h))

theorem queued_of_send (h : msg' ∈ (send parked isOpen msg).2) :
    msg' = msg ∧ isOpen = true := by
  unfold send at h
  cases ht : trySend parked isOpen with
  | ok u =>
      rw [ht] at h
      exact ⟨(Option.mem_some_iff.mp h).symm, isOpen_of_trySend_ok ht⟩
  | error e => cases e <;> simp [ht] at h

theorem info_of_send (h : msg' ∈ (send parked isOpen msg).1.info) : msg' = msg := by
  unfold send at h
  cases ht : trySend parked isOpen with
  | ok u => simp [ht] at h
  | error e =>
      cases e with
      | full =>
          rw [ht] at h
          exact (Option.mem_some_iff.mp h).symm
      | closed => simp [ht] at h

theorem queued_of_poll (r : RecipientRequest V) (parked isOpen answered : Bool) :
    ∀ msg ∈ (r.poll parked isOpen answered).2.1, msg ∈ r.info ∧ isOpen = true := by
  intro msg h
  unfold poll at h
  cases hinfo : r.info with
  | none => simp [hinfo] at h
  | some msg' =>
      cases ht : trySend parked isOpen with
      | ok u =>
          simp only [hinfo, ht] at h
          exact ⟨h, isOpen_of_trySend_ok ht⟩
      | error e => cases e <;> simp [hinfo, ht] at h

theorem info_of_poll (r : RecipientRequest V) (parked isOpen answered : Bool) :
    ∀ msg ∈ (r.poll parked isOpen answered).1.info, msg ∈ r.info := by
  intro msg h
  unfold poll at h
  cases hinfo : r.info with
  | none => simp [hinfo] at h
  | some msg' =>
      cases ht : trySend parked isOpen with
      | ok u => simp [hinfo, ht] at h
      | error e =>
          cases e with
          | full => simpa [hinfo, ht] using h
          | closed => simp [hinfo, ht] at h

theorem info_of_ready (r : RecipientRequest V) (parked isOpen answered : Bool) :
    (r.poll parked isOpen answered).2.2 = true →
      (r.poll parked isOpen answered).1.info = none := by
  intro h
  unfold poll at h ⊢
  cases hinfo : r.info with
  | none => simpa using hinfo
  | some msg =>
      cases ht : trySend parked isOpen with
      | ok u => rfl
      | error e =>
          cases e with
          | full => simp [hinfo, ht] at h
          | closed => rfl

end RecipientRequest

end Sending

namespace Broker

variable {b : Broker V} {m m' : TypeId} {sub : Recipient} {id : TypeId}

/-- The subscriptions that the broker has in the list of a type. -/
def listed (b : Broker V) (m : TypeId) : List Subscription :=
  ((b.subMap m).getD []).map fun s => ⟨s.2.type, s.1, s.2.value⟩

theorem subMap_addSub_of_ne (h : m' ≠ m) : (b.addSub m sub id).subMap m' = b.subMap m' := by
  unfold addSub
  cases b.subMap m with
  | none => exact Function.update_of_ne h _ _
  | some subs => exact Function.update_of_ne h _ _

theorem listed_addSub_of_ne (h : m' ≠ m) : (b.addSub m sub id).listed m' = b.listed m' := by
  rw [listed, subMap_addSub_of_ne h, listed]

theorem listed_addSub : (b.addSub m sub id).listed m = b.listed m ++ [⟨m, id, sub⟩] := by
  unfold listed addSub
  cases b.subMap m with
  | none => simp
  | some subs => simp

theorem subMap_takeSubs_of_ne (h : m' ≠ m) : (b.takeSubs m).2.subMap m' = b.subMap m' := by
  unfold takeSubs
  cases b.subMap m with
  | none => rfl
  | some subs => exact Function.update_of_ne h _ _

theorem listed_takeSubs_of_ne (h : m' ≠ m) : (b.takeSubs m).2.listed m' = b.listed m' := by
  rw [listed, subMap_takeSubs_of_ne h, listed]

theorem listed_takeSubs : (b.takeSubs m).2.listed m = [] := by
  unfold listed takeSubs
  cases h : b.subMap m with
  | none => simp [h]
  | some subs => simp

/-- Recipients of the right type are all taken. -/
theorem takeSubs_eq (htyped : ∀ e ∈ b.listed m, e.type = m) :
    ((b.takeSubs m).1.getD []).map (fun e => ⟨m, e.1, e.2⟩) = b.listed m := by
  unfold listed at htyped ⊢
  unfold takeSubs
  cases h : b.subMap m with
  | none => simp
  | some subs =>
      simp only [h, Option.getD_some, List.forall_mem_map] at htyped ⊢
      have htaken : subs.filterMap (fun s => (s.2.downcast m).map fun sub => (s.1, sub)) =
          subs.map fun s => (s.1, s.2.value) := by
        rw [← List.filterMap_eq_map]
        refine List.filterMap_congr fun s hs => ?_
        simp [Boxed.downcast, htyped s hs]
      rw [htaken, List.map_map]
      refine List.map_congr_left fun s hs => ?_
      simp [htyped s hs]

end Broker

/-- The recipients that an issued message still has to be sent to, out of those that are left. -/
def Issue.remaining (call : Issue V) (subs : List (TypeId × Recipient)) : List (ℕ × Recipient) :=
  (subs.filter fun e => decide (e.1 ≠ call.issuer)).map fun e => (call.number, e.2)

def Issue.subscriptions (call : Issue V) (subs : List (TypeId × Recipient)) : List Subscription :=
  subs.map fun e => ⟨call.type, e.1, e.2⟩

namespace Handler

def calls : Handler V → List (Issue V)
  | .idle => []
  | .issueAsync call _ | .doSend call _ _ _ | .issueSync call _ => [call]

/-- The subscriptions that the handler has taken and not put back. -/
def subscriptions : Handler V → List Subscription
  | .idle => []
  | .issueAsync call subs | .issueSync call subs => call.subscriptions subs
  | .doSend call id sub subs => ⟨call.type, id, sub⟩ :: call.subscriptions subs

def pending : Handler V → List (ℕ × Recipient)
  | .idle => []
  | .issueAsync call subs | .issueSync call subs => call.remaining subs
  | .doSend call _ sub subs => (call.number, sub) :: call.remaining subs

end Handler

namespace WaitItem

def subscription (w : WaitItem V) : Subscription := ⟨w.call.type, w.id, w.recipient⟩

def pending (w : WaitItem V) : List (ℕ × Recipient) :=
  copies w.request.info (w.call.number, w.recipient)

end WaitItem

namespace BrokerRun

def Closed (s : BrokerRun V) (sub : Recipient) : Prop := s.isOpen sub.mailbox = false

/-- The issued messages whose handler or wait futures are not done. -/
def calls (s : BrokerRun V) : List (Issue V) := s.handler.calls ++ s.wait.map WaitItem.call

def Underway (s : BrokerRun V) (call : Issue V) : Prop := call ∈ s.calls

/-- The subscriptions that are with the handler or with a wait future. -/
def outside (s : BrokerRun V) : List Subscription :=
  s.handler.subscriptions ++ s.wait.map WaitItem.subscription

def held (s : BrokerRun V) (m : TypeId) : List Subscription :=
  s.broker.listed m ++ s.outside.filter fun e => decide (e.type = m)

def pending (s : BrokerRun V) : List (ℕ × Recipient) :=
  s.handler.pending ++ s.wait.flatMap WaitItem.pending

def sends (s : BrokerRun V) : List (ℕ × Recipient) := s.sent.map fun d => (d.issue, d.recipient)

def due (s : BrokerRun V) : List (ℕ × Recipient) := s.sends ++ s.pending

/-- How often an issued message was sent to a recipient. -/
def timesSent (s : BrokerRun V) (call : Issue V) (sub : Recipient) : ℕ :=
  s.sends.count (call.number, sub)

/-- The recipients an issued message is for: those of its type that subscribed before it, less the
ones of its issuer. -/
def audience (s : BrokerRun V) (call : Issue V) : List Recipient :=
  ((s.made.take call.madeBefore).filter fun e =>
    decide (e.type = call.type ∧ e.id ≠ call.issuer)).map Subscription.recipient

/-- The messages that wait futures still have to send are the ones that were issued. -/
def Faithful (s : BrokerRun V) : Prop := ∀ w ∈ s.wait, ∀ msg ∈ w.request.info, msg = w.call.message

/-- What a step of the handler or of a wait future can do. -/
structure Moves (s s' : BrokerRun V) : Prop where
  made : s'.made = s.made
  issues : s'.issues = s.issues
  isOpen : s'.isOpen = s.isOpen
  calls : ∀ call ∈ s'.calls, call ∈ s.calls
  held : ∀ m, PermUpTo (fun e => s.Closed e.recipient) (s'.held m) (s.held m)
  due : PermUpTo (fun p => s.Closed p.2) s'.due s.due
  sent : ∀ d ∈ s'.sent, d ∈ s.sent ∨ s.isOpen d.recipient.mailbox = true ∧
    ∃ call ∈ s.calls, d.issue = call.number ∧ d.message = call.message
  faithful : s'.Faithful

section Views

variable {s s' : BrokerRun V} {call : Issue V} {sub : Recipient} {id m : TypeId}
  {message : Option V} {e : Subscription} {handler : Handler V}

@[simp] theorem queue_none : s.queue call sub none = s := by simp [queue]

theorem sends_queue :
    (s.queue call sub message).sends = s.sends ++ copies message (call.number, sub) := by
  cases message <;> simp [queue, sends]

/-- What is queued by a step is the message of its call, for an open mailbox. -/
theorem sent_queue (hcall : call ∈ s.calls)
    (hmessage : ∀ msg ∈ message, msg = call.message ∧ s.isOpen sub.mailbox = true)
    {d : Delivery V} (h : d ∈ (s.queue call sub message).sent) :
    d ∈ s.sent ∨ s.isOpen d.recipient.mailbox = true ∧
      ∃ call ∈ s.calls, d.issue = call.number ∧ d.message = call.message := by
  cases message with
  | none => exact Or.inl (by simpa using h)
  | some msg =>
      rcases List.mem_append.mp h with h | h
      · exact Or.inl h
      · obtain rfl := List.mem_singleton.mp h
        obtain ⟨heq, hopen⟩ := hmessage msg rfl
        exact Or.inr ⟨hopen, call, hcall, rfl, heq⟩

theorem held_perm (hlisted : s'.broker.listed m = s.broker.listed m)
    (houtside : s'.outside.Perm s.outside) : (s'.held m).Perm (s.held m) := by
  rw [held, held, hlisted]
  exact (houtside.filter _).append_left _

/-- A subscription that is put back is held as before. -/
theorem held_putBack (hbroker : s'.broker = s.broker.addSub e.type e.recipient e.id)
    (houtside : s.outside.Perm (e :: s'.outside)) (m : TypeId) :
    (s'.held m).Perm (s.held m) := by
  have hfilter := houtside.filter fun e => decide (e.type = m)
  refine List.Perm.trans ?_ (hfilter.symm.append_left (s.broker.listed m))
  rw [held, hbroker]
  by_cases hm : m = e.type
  · subst hm
    rw [Broker.listed_addSub, List.filter_cons_of_pos (by simp), List.append_assoc]
    rfl
  · rw [Broker.listed_addSub_of_ne hm, List.filter_cons_of_neg (by simpa using Ne.symm hm)]

/-- A subscription that is dropped is the only one that is missing. -/
theorem held_drop (hbroker : s'.broker = s.broker) (houtside : s.outside.Perm (e :: s'.outside))
    (hclosed : s.Closed e.recipient) (m : TypeId) :
    PermUpTo (fun e => s.Closed e.recipient) (s'.held m) (s.held m) := by
  have hfilter := houtside.filter fun e => decide (e.type = m)
  refine PermUpTo.trans ?_ (PermUpTo.of_perm (hfilter.symm.append_left (s.broker.listed m)))
  rw [held, hbroker]
  refine (PermUpTo.refl _).append ?_
  by_cases hm : e.type = m
  · rw [List.filter_cons_of_pos (by simpa using hm)]
    have hlose : PermUpTo (fun e : Subscription => s.Closed e.recipient) [] [e] :=
      PermUpTo.lose hclosed
    exact hlose.append (PermUpTo.refl _)
  · rw [List.filter_cons_of_neg (by simpa using hm)]
    exact PermUpTo.refl _

/-- What was due is now sent, still due, or lost. -/
theorem due_trade (queued left old others : List (ℕ × Recipient))
    (hsends : s'.sends = s.sends ++ queued) (hpending' : s'.pending.Perm (left ++ others))
    (hpending : s.pending.Perm (old ++ others))
    (h : PermUpTo (fun p => s.Closed p.2) (queued ++ left) old) :
    PermUpTo (fun p => s.Closed p.2) s'.due s.due := by
  have hbefore : s.due.Perm (s.sends ++ (old ++ others)) := hpending.append_left s.sends
  have hafter : s'.due.Perm (s.sends ++ ((queued ++ left) ++ others)) := by
    rw [due, hsends]
    simpa only [List.append_assoc] using hpending'.append_left (s.sends ++ queued)
  refine (PermUpTo.of_perm hafter).trans (PermUpTo.trans ?_ (PermUpTo.of_perm hbefore.symm))
  exact (PermUpTo.refl s.sends).append (h.append (PermUpTo.refl others))

theorem pending_cons (handler : Handler V) (w : WaitItem V) (items : List (WaitItem V)) :
    (handler.pending ++ (w :: items).flatMap WaitItem.pending).Perm
      (w.pending ++ (handler.pending ++ items.flatMap WaitItem.pending)) := by
  simp only [List.flatMap_cons, ← List.append_assoc]
  exact List.perm_append_comm.append_right _

theorem pending_of_wait {w : WaitItem V} {items : List (WaitItem V)} (hwait : s.wait = w :: items) :
    s.pending.Perm (w.pending ++ (s.handler.pending ++ items.flatMap WaitItem.pending)) := by
  rw [pending, hwait]
  exact pending_cons s.handler w items

/-- The handler is done with a recipient and puts it back. -/
theorem moves_putBack {old : List (ℕ × Recipient)} (hs : s.Faithful)
    (hcall : s.handler.calls = [call]) (hcalls : handler.calls = [call])
    (hsubs : s.handler.subscriptions = ⟨call.type, id, sub⟩ :: handler.subscriptions)
    (hpending : s.handler.pending = old ++ handler.pending)
    (hold : PermUpTo (fun p => s.Closed p.2) (copies message (call.number, sub)) old)
    (hmessage : ∀ msg ∈ message, msg = call.message ∧ s.isOpen sub.mailbox = true) :
    Moves s (((s.queue call sub message).addSub call.type sub id).goto handler) := by
  refine ⟨rfl, rfl, rfl, ?_, ?_, ?_, ?_, hs⟩
  · intro c hc
    rw [calls, hcall, ← hcalls]
    exact hc
  · refine fun m => PermUpTo.of_perm (held_putBack (e := ⟨call.type, id, sub⟩) rfl ?_ m)
    rw [outside, hsubs]
    exact List.Perm.refl _
  · refine due_trade (copies message (call.number, sub)) [] old
      (handler.pending ++ s.wait.flatMap WaitItem.pending) sends_queue (List.Perm.refl _) ?_
      (by simpa using hold)
    rw [pending, hpending, List.append_assoc]
  · exact fun d hd => sent_queue (List.mem_append_left _ (by simp [hcall])) hmessage hd

/-- The handler puts back a recipient of the issuer. -/
theorem moves_pass (hs : s.Faithful) (hcall : s.handler.calls = [call])
    (hcalls : handler.calls = [call])
    (hsubs : s.handler.subscriptions = ⟨call.type, id, sub⟩ :: handler.subscriptions)
    (hpending : s.handler.pending = handler.pending) :
    Moves s ((s.addSub call.type sub id).goto handler) := by
  have hmoves : Moves s (((s.queue call sub none).addSub call.type sub id).goto handler) :=
    moves_putBack hs hcall hcalls hsubs (List.nil_append _ ▸ hpending) (PermUpTo.refl _) (by simp)
  rwa [queue_none] at hmoves

/-- The handler has found the mailbox of a recipient closed. -/
theorem moves_drop (hs : s.Faithful) (hcall : s.handler.calls = [call])
    (hcalls : handler.calls = [call])
    (hsubs : s.handler.subscriptions = ⟨call.type, id, sub⟩ :: handler.subscriptions)
    (hpending : s.handler.pending = (call.number, sub) :: handler.pending)
    (hclosed : s.Closed sub) : Moves s (s.goto handler) := by
  refine ⟨rfl, rfl, rfl, ?_, ?_, ?_, fun d hd => Or.inl hd, hs⟩
  · intro c hc
    rw [calls, hcall, ← hcalls]
    exact hc
  · refine held_drop (e := ⟨call.type, id, sub⟩) rfl ?_ hclosed
    rw [outside, hsubs]
    exact List.Perm.refl _
  · refine due_trade [] [] [(call.number, sub)]
      (handler.pending ++ s.wait.flatMap WaitItem.pending) (by simp [goto, sends])
      (List.Perm.refl _) ?_ (PermUpTo.lose hclosed)
    rw [pending, hpending]
    exact List.Perm.refl _

/-- The handler goes on without a change to what it has in hand. -/
theorem moves_goto (hs : s.Faithful) (hcalls : ∀ c ∈ handler.calls, c ∈ s.handler.calls)
    (hsubs : handler.subscriptions = s.handler.subscriptions)
    (hpending : handler.pending = s.handler.pending) : Moves s (s.goto handler) := by
  refine ⟨rfl, rfl, rfl, ?_, ?_, ?_, fun d hd => Or.inl hd, hs⟩
  · intro c hc
    rcases List.mem_append.mp hc with hc | hc
    · exact List.mem_append_left _ (hcalls c hc)
    · exact List.mem_append_right _ hc
  · intro m
    refine PermUpTo.of_perm (held_perm ?_ (List.Perm.of_eq ?_))
    · rfl
    · exact congrArg (· ++ s.wait.map WaitItem.subscription) hsubs
  · have hdue : (s.goto handler).due = s.due :=
      congrArg (fun l => s.sends ++ (l ++ s.wait.flatMap WaitItem.pending)) hpending
    rw [hdue]
    exact PermUpTo.refl _

/-- The handler has reached the end of its loop. -/
theorem moves_setMsg (hs : s.Faithful) (hsubs : s.handler.subscriptions = [])
    (hpending : s.handler.pending = []) : Moves s ((s.setMsg call).goto .idle) := by
  have hmoves : Moves s (s.goto .idle) := by
    refine moves_goto hs (fun c hc => ?_) hsubs.symm hpending.symm
    simp [Handler.calls] at hc
  exact ⟨rfl, rfl, rfl, hmoves.calls, hmoves.held, hmoves.due, hmoves.sent, hmoves.faithful⟩

/-- The handler of `IssueSync` sends to a recipient and waits for it. -/
theorem moves_register (hs : s.Faithful) (parked : Bool) (hcall : s.handler.calls = [call])
    (hcalls : handler.calls = [call])
    (hsubs : s.handler.subscriptions = ⟨call.type, id, sub⟩ :: handler.subscriptions)
    (hpending : s.handler.pending = (call.number, sub) :: handler.pending) :
    Moves s { (s.queue call sub (RecipientRequest.send parked (s.isOpen sub.mailbox)
      call.message).2).goto handler with
      wait := ⟨call, (RecipientRequest.send parked (s.isOpen sub.mailbox) call.message).1, id,
        sub⟩ :: s.wait } := by
  refine ⟨rfl, rfl, rfl, ?_, ?_, ?_, ?_, ?_⟩
  · intro c hc
    simp only [calls, goto, hcalls, hcall, List.map_cons, List.mem_append,
      List.mem_cons] at hc ⊢
    tauto
  · intro m
    refine PermUpTo.of_perm (held_perm ?_ ?_)
    · rfl
    · simp only [outside, goto, queue, hsubs, List.map_cons, WaitItem.subscription]
      exact List.perm_middle
  · refine due_trade (copies (RecipientRequest.send parked (s.isOpen sub.mailbox) call.message).2
      (call.number, sub)) (copies (RecipientRequest.send parked (s.isOpen sub.mailbox)
      call.message).1.info (call.number, sub)) [(call.number, sub)]
      (handler.pending ++ s.wait.flatMap WaitItem.pending) sends_queue ?_ ?_
      (RecipientRequest.copies_send fun h => h)
    · exact pending_cons handler ⟨call, _, id, sub⟩ s.wait
    · rw [pending, hpending]
      exact List.Perm.refl _
  · exact fun d hd => sent_queue (List.mem_append_left _ (by simp [hcall]))
      (fun msg h => RecipientRequest.queued_of_send h) hd
  · intro w hw msg hmsg
    rcases List.mem_cons.mp hw with rfl | hw
    · exact RecipientRequest.info_of_send hmsg
    · exact hs w hw msg hmsg

theorem moves_refl (hs : s.Faithful) : Moves s s :=
  ⟨rfl, rfl, rfl, fun _ h => h, fun _ => PermUpTo.refl _, PermUpTo.refl _, fun _ h => Or.inl h, hs⟩

/-- A wait future that is ready puts its recipient back. -/
theorem moves_ready {w : WaitItem V} {items : List (WaitItem V)} (hs : s.Faithful)
    (hwait : s.wait = w :: items)
    (hdue : PermUpTo (fun p => s.Closed p.2) (copies message (w.call.number, w.recipient))
      w.pending)
    (hmessage : ∀ msg ∈ message, msg ∈ w.request.info ∧ s.isOpen w.recipient.mailbox = true) :
    Moves s { (s.queue w.call w.recipient message).addSub w.call.type w.recipient w.id with
      wait := items } := by
  have hw : w ∈ s.wait := by simp [hwait]
  have hitems : ∀ w' ∈ items, w' ∈ s.wait := fun w' h => by simp [hwait, h]
  refine ⟨rfl, rfl, rfl, ?_, ?_, ?_, ?_, fun w' h => hs w' (hitems w' h)⟩
  · intro c hc
    simp only [calls, hwait, List.map_cons, List.mem_append, List.mem_cons] at hc ⊢
    exact hc.imp_right Or.inr
  · refine fun m => PermUpTo.of_perm (held_putBack (e := w.subscription) rfl ?_ m)
    rw [outside, hwait]
    exact List.perm_middle
  · refine due_trade (copies message (w.call.number, w.recipient)) [] w.pending
      (s.handler.pending ++ items.flatMap WaitItem.pending) sends_queue (List.Perm.refl _)
      (pending_of_wait hwait) (by simpa using hdue)
  · refine fun d hd => sent_queue (List.mem_append_right _ (List.mem_map_of_mem hw)) ?_ hd
    exact fun msg h => ⟨hs w hw msg (hmessage msg h).1, (hmessage msg h).2⟩

/-- A wait future that is not ready may have sent its message. -/
theorem moves_pending {w : WaitItem V} {items : List (WaitItem V)} {request : RecipientRequest V}
    (hs : s.Faithful) (hwait : s.wait = w :: items)
    (hdue : PermUpTo (fun p => s.Closed p.2) (copies message (w.call.number, w.recipient) ++
      copies request.info (w.call.number, w.recipient)) w.pending)
    (hmessage : ∀ msg ∈ message, msg ∈ w.request.info ∧ s.isOpen w.recipient.mailbox = true)
    (hinfo : ∀ msg ∈ request.info, msg ∈ w.request.info) :
    Moves s { s.queue w.call w.recipient message with wait := { w with request } :: items } := by
  have hw : w ∈ s.wait := by simp [hwait]
  refine ⟨rfl, rfl, rfl, ?_, ?_, ?_, ?_, ?_⟩
  · intro c hc
    rw [calls, hwait]
    exact hc
  · intro m
    refine PermUpTo.of_perm (held_perm ?_ (List.Perm.of_eq ?_))
    · rfl
    · simp only [outside, hwait, List.map_cons]
      rfl
  · refine due_trade (copies message (w.call.number, w.recipient))
      (copies request.info (w.call.number, w.recipient)) w.pending
      (s.handler.pending ++ items.flatMap WaitItem.pending) sends_queue ?_
      (pending_of_wait hwait) hdue
    exact pending_cons s.handler { w with request } items
  · refine fun d hd => sent_queue (List.mem_append_right _ (List.mem_map_of_mem hw)) ?_ hd
    exact fun msg h => ⟨hs w hw msg (hmessage msg h).1, (hmessage msg h).2⟩
  · intro w' hw' msg hmsg
    rcases List.mem_cons.mp hw' with rfl | hw'
    · exact hs w hw msg (hinfo msg hmsg)
    · exact hs w' (by simp [hwait, hw']) msg hmsg

theorem moves_pollWait (hs : s.Faithful) (parked answered : Bool) :
    Moves s (s.pollWait parked answered) := by
  cases hwait : s.wait with
  | nil =>
      rw [pollWait, hwait]
      exact moves_refl hs
  | cons w items =>
      have hdue : PermUpTo (fun p => s.Closed p.2) _ w.pending :=
        w.request.copies_poll parked (s.isOpen w.recipient.mailbox) answered
          (w.call.number, w.recipient) fun h => h
      have hready := w.request.info_of_ready parked (s.isOpen w.recipient.mailbox) answered
      have hmessage := w.request.queued_of_poll parked (s.isOpen w.recipient.mailbox) answered
      have hinfo := w.request.info_of_poll parked (s.isOpen w.recipient.mailbox) answered
      rcases hpoll : w.request.poll parked (s.isOpen w.recipient.mailbox) answered with
        ⟨request, message, ready⟩
      simp only [hpoll] at hdue hready hmessage hinfo
      cases ready with
      | true =>
          simp only [pollWait, hwait, hpoll]
          refine moves_ready hs hwait ?_ hmessage
          simpa [hready] using hdue
      | false =>
          simp only [pollWait, hwait, hpoll]
          exact moves_pending hs hwait hdue hmessage hinfo

theorem remaining_of_issuer {subs : List (TypeId × Recipient)} (h : id = call.issuer) :
    call.remaining ((id, sub) :: subs) = call.remaining subs := by
  simp [Issue.remaining, h]

theorem remaining_of_ne {subs : List (TypeId × Recipient)} (h : id ≠ call.issuer) :
    call.remaining ((id, sub) :: subs) = [(call.number, sub)] ++ call.remaining subs := by
  simp [Issue.remaining, h]

theorem moves_issueAsync {subs : List (TypeId × Recipient)} (hs : s.Faithful) (parked : Bool)
    (hhandler : s.handler = .issueAsync call ((id, sub) :: subs)) :
    Moves s (s.advance parked) := by
  have hcall : s.handler.calls = [call] := by rw [hhandler]; rfl
  have hsubs : s.handler.subscriptions =
      ⟨call.type, id, sub⟩ :: (Handler.issueAsync call subs).subscriptions := by
    rw [hhandler]; rfl
  simp only [advance, hhandler]
  split_ifs with hissuer
  · refine moves_pass hs hcall rfl hsubs ?_
    rw [hhandler]
    exact remaining_of_issuer hissuer
  · have hpending : s.handler.pending =
        [(call.number, sub)] ++ (Handler.issueAsync call subs).pending := by
      rw [hhandler]; exact remaining_of_ne hissuer
    cases hsend : trySend parked (s.isOpen sub.mailbox) with
    | ok u =>
        refine moves_putBack hs hcall rfl hsubs hpending (PermUpTo.refl _) ?_
        intro msg hmsg
        exact ⟨(Option.mem_some_iff.mp hmsg).symm, isOpen_of_trySend_ok hsend⟩
    | error e =>
        cases e with
        | full =>
            refine moves_goto hs ?_ hsubs.symm hpending.symm
            rw [hcall]
            exact fun c h => h
        | closed => exact moves_drop hs hcall rfl hsubs hpending (closed_of_trySend hsend)

/-- The message is queued unless the mailbox is closed, and the recipient is put back. -/
theorem moves_doSend {subs : List (TypeId × Recipient)} (hs : s.Faithful) (parked : Bool)
    (hhandler : s.handler = .doSend call id sub subs) : Moves s (s.advance parked) := by
  have hcall : s.handler.calls = [call] := by rw [hhandler]; rfl
  have hsubs : s.handler.subscriptions =
      ⟨call.type, id, sub⟩ :: (Handler.issueAsync call subs).subscriptions := by
    rw [hhandler]; rfl
  have hpending : s.handler.pending =
      [(call.number, sub)] ++ (Handler.issueAsync call subs).pending := by rw [hhandler]; rfl
  simp only [advance, hhandler]
  refine moves_putBack hs hcall rfl hsubs hpending ?_ ?_
  · split_ifs with hopen
    · exact PermUpTo.refl _
    · exact PermUpTo.lose (Bool.eq_false_of_not_eq_true hopen)
  · intro msg hmsg
    split_ifs at hmsg with hopen
    · exact ⟨(Option.mem_some_iff.mp hmsg).symm, hopen⟩
    · simp at hmsg

theorem moves_issueSync {subs : List (TypeId × Recipient)} (hs : s.Faithful) (parked : Bool)
    (hhandler : s.handler = .issueSync call ((id, sub) :: subs)) :
    Moves s (s.advance parked) := by
  have hcall : s.handler.calls = [call] := by rw [hhandler]; rfl
  have hsubs : s.handler.subscriptions =
      ⟨call.type, id, sub⟩ :: (Handler.issueSync call subs).subscriptions := by
    rw [hhandler]; rfl
  simp only [advance, hhandler]
  split_ifs with hissuer
  · refine moves_pass hs hcall rfl hsubs ?_
    rw [hhandler]
    exact remaining_of_issuer hissuer
  · refine moves_register hs parked hcall rfl hsubs ?_
    rw [hhandler]
    exact remaining_of_ne hissuer

theorem moves_advance (hs : s.Faithful) (parked : Bool) : Moves s (s.advance parked) := by
  cases hhandler : s.handler with
  | idle =>
      rw [advance, hhandler]
      exact moves_refl hs
  | issueAsync call subs =>
      cases subs with
      | nil =>
          simp only [advance, hhandler]
          exact moves_setMsg hs (by rw [hhandler]; rfl) (by rw [hhandler]; rfl)
      | cons e subs => exact moves_issueAsync hs parked hhandler
  | doSend call id sub subs => exact moves_doSend hs parked hhandler
  | issueSync call subs =>
      cases subs with
      | nil =>
          simp only [advance, hhandler]
          exact moves_setMsg hs (by rw [hhandler]; rfl) (by rw [hhandler]; rfl)
      | cons e subs => exact moves_issueSync hs parked hhandler

end Views

end BrokerRun

end ActixPura.ActixBroker
