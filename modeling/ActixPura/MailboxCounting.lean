import ActixPura.MailboxChannel

/-!
# What the state word of a mailbox counts

The state word counts the messages that were let in and not yet given out: those that a send still
has to push, those that wait in the queue, and the one in the hands of the receiver. `Advanced`
says once what an access of a send changes, and the invariants are read off it.
-/

namespace ActixPura.MailboxChannel

open Runs MpscQueue

variable {τ : Type}

/-! ## The state word -/

theorem encodeState_open {n : ℕ} (h : n ≤ maxCapacity) : encodeState ⟨true, n⟩ = 2 ^ 63 + n := by
  have hn : n < 2 ^ 63 := Nat.lt_of_le_of_lt h (by decide)
  have hor := Nat.two_pow_add_eq_or_of_lt hn 1
  rw [Nat.mul_one] at hor
  rw [hor, Nat.lor_comm, encodeState]
  rfl

theorem encodeState_closed (n : ℕ) : encodeState ⟨false, n⟩ = n := by
  rw [encodeState]
  rfl

theorem decodeState_encodeState {s : State} (h : s.numMessages ≤ maxCapacity) :
    decodeState (encodeState s) = s := by
  obtain ⟨isOpen, n⟩ := s
  have hn : n < 2 ^ 63 := Nat.lt_of_le_of_lt h (by decide)
  cases isOpen with
  | false =>
      have hhigh : n &&& 2 ^ 63 = 0 := by
        rw [Nat.and_two_pow, Nat.testBit_lt_two_pow hn, Bool.toNat_false, Nat.zero_mul]
      have hlow : n &&& (2 ^ 63 - 1) = n := Nat.and_two_pow_sub_one_of_lt_two_pow hn
      rw [encodeState_closed, decodeState, openMask, maxCapacity, hhigh, hlow]
      rfl
  | true =>
      have hhigh : (2 ^ 63 + n) &&& 2 ^ 63 = 2 ^ 63 := by
        rw [Nat.and_two_pow, Nat.testBit_two_pow_add_eq, Nat.testBit_lt_two_pow hn, Bool.not_false,
          Bool.toNat_true, Nat.one_mul]
      have hlow : (2 ^ 63 + n) &&& (2 ^ 63 - 1) = n := by
        rw [Nat.and_two_pow_sub_one_eq_mod, Nat.add_mod_left, Nat.mod_eq_of_lt hn]
      rw [encodeState_open h, decodeState, openMask, maxCapacity, hhigh, hlow]
      rfl

theorem fetchSub_succ (n : ℕ) : fetchSub (n + 1) = n := by
  unfold fetchSub
  rw [if_neg (Nat.succ_ne_zero n), Nat.add_sub_cancel]

theorem fetchSub_encodeState {isOpen : Bool} {n : ℕ} (h : n < maxCapacity) :
    fetchSub (encodeState ⟨isOpen, n + 1⟩) = encodeState ⟨isOpen, n⟩ := by
  cases isOpen with
  | false => rw [encodeState_closed, encodeState_closed, fetchSub_succ]
  | true => rw [encodeState_open h.le, encodeState_open h, Nat.add_succ, fetchSub_succ]

theorem clearOpen_encodeState {s : State} (h : s.numMessages ≤ maxCapacity) :
    clearOpen (encodeState s) = encodeState { s with isOpen := false } := by
  have hdecoded := congrArg State.numMessages (decodeState_encodeState h)
  simpa [encodeState, clearOpen, decodeState] using hdecoded

/-! ## What one access of a send changes -/

section Accesses

variable {c : Channel τ} {i : ℕ} {s : Send τ}

def Channel.nextPc (c : Channel τ) (s : Send τ) : SendPc :=
  match s.pc with
  | .polling => if c.maybeParked s.sender then .locking else .incrementing
  | .locking => if c.isParked s.sender then .returned .full else .incrementing
  | .incrementing =>
    if c.word.isOpen then
      match s.kind with
      | .doSend => .pushing
      | _ => .measuring (c.word.numMessages + 1)
    else .returned .closed
  | .measuring n => if c.buffer ≠ 0 ∧ c.buffer ≤ n ∧ s.kind.parks then .parking else .pushing
  | .parking => .enqueueing
  | .enqueueing => .linkingTask
  | .linkingTask => .confirming
  | .confirming => .flagging c.word.isOpen
  | .flagging _ => .pushing
  | .pushing => .linking
  | .linking => .signalling
  | .signalling => .returned .accepted
  | .returned outcome => .returned outcome

theorem wake_eq (c : Channel τ) : ∃ waker woken, c.wake = { c with waker, woken } := by
  unfold Channel.wake
  split
  · exact ⟨_, _, rfl⟩
  · exact ⟨c.waker, c.woken, rfl⟩

theorem setClosed_eq (c : Channel τ) : ∃ word, c.setClosed = { c with state := word } := by
  unfold Channel.setClosed
  split
  · exact ⟨_, rfl⟩
  · exact ⟨c.state, rfl⟩

theorem goto_self (hs : c.sends[i]? = some s) : c.goto i s.pc = c := by
  have hsends : c.sends.modify i (fun t => { t with pc := s.pc }) = c.sends := by
    refine List.ext_getElem? fun j => ?_
    rw [List.getElem?_modify]
    by_cases hij : i = j
    · subst hij
      simp [hs]
    · simp [hij]
  rw [Channel.goto, hsends]

theorem increment_eq (c : Channel τ) (i : ℕ) (s : Send τ) (hpc : s.pc = .incrementing) :
    c.increment i s = { c with
      state := if c.word.isOpen
        then encodeState { c.word with numMessages := c.word.numMessages + 1 } else c.state
      sends := (c.goto i (c.nextPc s)).sends } := by
  cases hopen : c.word.isOpen with
  | false =>
      simp [Channel.increment, Channel.incNumMessages, Channel.nextPc, Channel.goto, hpc, hopen]
  | true =>
      cases hkind : s.kind <;>
        simp [Channel.increment, Channel.incNumMessages, Channel.nextPc, Channel.goto, hpc, hopen,
          hkind]

/-- What one access of the send `i` makes of the channel: only the increment writes the state word,
only a push and a link write a queue, and so on. -/
structure Advanced (c : Channel τ) (i : ℕ) (s : Send τ) (c' : Channel τ) : Prop where
  sends : c'.sends = (c.goto i (c.nextPc s)).sends
  state : c'.state = if s.pc = .incrementing ∧ c.word.isOpen
    then encodeState { c.word with numMessages := c.word.numMessages + 1 } else c.state
  messageQueue : c'.messageQueue = match s.pc with
    | .pushing => c.messageQueue ++ [⟨s.message, some i⟩]
    | .linking => c.messageQueue.map (Cell.link i)
    | _ => c.messageQueue
  parkedQueue : c'.parkedQueue = match s.pc with
    | .enqueueing => c.parkedQueue ++ [⟨s.sender, some i⟩]
    | .linkingTask => c.parkedQueue.map (Cell.link i)
    | _ => c.parkedQueue
  senders : c'.senders = match s.pc with
    | .locking => if c.isParked s.sender then c.senders
      else (c.setMaybeParked s.sender false).senders
    | .parking => (c.setParked s.sender true).senders
    | .flagging isOpen => (c.setMaybeParked s.sender isOpen).senders
    | _ => c.senders
  pushed : c'.pushed = if s.pc = .pushing then c.pushed ++ [i] else c.pushed
  waker : c'.waker = if s.pc = .signalling then c.wake.waker else c.waker
  woken : c'.woken = if s.pc = .signalling then c.wake.woken else c.woken
  frame : c'.receiver = c.receiver ∧ c'.asleep = c.asleep ∧ c'.polls = c.polls ∧
    c'.dropped = c.dropped ∧ c'.buffer = c.buffer ∧ c'.numSenders = c.numSenders ∧
    c'.lastDrops = c.lastDrops

theorem advanced (hs : c.sends[i]? = some s) : Advanced c i s (c.advance i s) := by
  obtain ⟨waker, woken, hwake⟩ := wake_eq c
  cases hpc : s.pc with
  | locking =>
      by_cases hparked : c.isParked s.sender <;> constructor <;>
        simp [Channel.advance, Channel.nextPc, Channel.goto, Channel.setMaybeParked, hpc, hparked]
  | incrementing =>
      simp only [Channel.advance, hpc, increment_eq c i s hpc]
      constructor <;> simp [hpc]
  | returned outcome =>
      have hself := congrArg Channel.sends (goto_self hs)
      simp only [hpc] at hself
      constructor <;> simp [Channel.advance, Channel.nextPc, hpc, hself]
  | _ =>
      constructor <;>
        simp [Channel.advance, Channel.nextPc, Channel.goto, Channel.setParked,
          Channel.setMaybeParked, hpc, hwake]

end Accesses

/-! ## Messages that are counted -/

/-- The send has incremented the state and not yet pushed its message. -/
def SendPc.charge : SendPc → ℕ
  | .measuring _ | .parking | .enqueueing | .linkingTask | .confirming | .flagging _ | .pushing => 1
  | _ => 0

/-- The send may have pushed its handle and has not yet pushed its message. -/
def SendPc.enlist : SendPc → ℕ
  | .linkingTask | .confirming | .flagging _ | .pushing => 1
  | _ => 0

def Channel.total (weight : SendPc → ℕ) (c : Channel τ) : ℕ :=
  (c.sends.map fun s => weight s.pc).sum

def Unparking.held : Unparking τ → List τ
  | .message _ m => [m]
  | _ => []

/-- The message in the hands of the receiver. -/
def Receiver.held : Receiver τ → List τ
  | .unpark why | .notify _ why => why.held
  | .decrement _ m => [m]
  | _ => []

/-- The message for which no handle was unparked yet. -/
def Receiver.due : Receiver τ → ℕ
  | .unpark (.message _ _) => 1
  | _ => 0

def Caller.past : Caller → Bool
  | .drain => true
  | _ => false

def Unparking.past : Unparking τ → Bool
  | .message caller _ => caller.past
  | .raising => false
  | .closing => true

/-- The receiver has closed the channel. -/
def Receiver.past : Receiver τ → Bool
  | .next caller | .check caller | .decrement caller _ => caller.past
  | .unpark why | .notify _ why => why.past
  | .recheck | .gone => true
  | .idle | .register | .close => false

theorem sum_modify {α : Type*} (weight : α → ℕ) (f : α → α) {xs : List α} {i : ℕ} {x : α}
    (h : xs[i]? = some x) :
    ((xs.modify i f).map weight).sum + weight x = (xs.map weight).sum + weight (f x) := by
  induction xs generalizing i with
  | nil => simp at h
  | cons y ys ih =>
      cases i with
      | zero =>
          obtain rfl : y = x := by simpa using h
          simp only [List.modify_zero_cons, List.map_cons, List.sum_cons]
          omega
      | succ i =>
          have hrest := ih (by simpa using h)
          simp only [List.modify_succ_cons, List.map_cons, List.sum_cons]
          omega

section Counting

variable {c c' : Channel τ} {i : ℕ} {s : Send τ} {pc : SendPc}

theorem total_goto (weight : SendPc → ℕ) (hs : c.sends[i]? = some s) :
    (c.goto i pc).total weight + weight s.pc = c.total weight + weight pc :=
  sum_modify (fun s : Send τ => weight s.pc) _ hs

structure Counted (c : Channel τ) : Prop where
  state : c.state = encodeState c.word
  bounded : c.word.numMessages ≤ maxCapacity
  count : c.word.numMessages =
    c.total SendPc.charge + c.messageQueue.length + c.receiver.held.length
  isOpen : c.word.isOpen = !c.receiver.past
  gone : c.receiver = .gone → c.word.numMessages = 0

theorem word_of_state {w : State} (h : c.state = encodeState w) (hw : w.numMessages ≤ maxCapacity) :
    c.word = w := by
  rw [Channel.word, h, decodeState_encodeState hw]

theorem Advanced.total (a : Advanced c i s c') (hs : c.sends[i]? = some s) (weight : SendPc → ℕ) :
    c'.total weight + weight s.pc = c.total weight + weight (c.nextPc s) := by
  rw [Channel.total, a.sends, ← Channel.total, total_goto weight hs]

theorem Advanced.length_messageQueue (a : Advanced c i s c') :
    c'.messageQueue.length = c.messageQueue.length + if s.pc = .pushing then 1 else 0 := by
  rw [a.messageQueue]
  cases s.pc <;> simp

theorem Counted.advance (h : Counted c) (hs : c.sends[i]? = some s) (a : Advanced c i s c')
    (hroom : s.pc = .incrementing → c.word.numMessages < maxCapacity) : Counted c' := by
  obtain ⟨hreceiver, -⟩ := a.frame
  have htotal := a.total hs SendPc.charge
  have hqueue := a.length_messageQueue
  have hcount := h.count
  have hstate := a.state
  by_cases hinc : s.pc = .incrementing ∧ c.word.isOpen
  · obtain ⟨hpc, hopen⟩ := hinc
    have hlt := hroom hpc
    rw [if_pos ⟨hpc, hopen⟩] at hstate
    have hnext : SendPc.charge (c.nextPc s) = 1 := by
      cases hkind : s.kind <;> simp [Channel.nextPc, hpc, hopen, hkind, SendPc.charge]
    rw [hnext] at htotal
    simp only [hpc, SendPc.charge, reduceCtorEq, if_false] at htotal hqueue
    have hword := word_of_state hstate hlt
    refine ⟨by rw [hword, hstate], by rw [hword]; exact hlt, ?_, ?_, fun hgone => ?_⟩
    · rw [hword, hreceiver]
      dsimp only
      omega
    · rw [hword, hreceiver]
      exact h.isOpen
    · have hpast := h.isOpen
      rw [← hreceiver, hgone] at hpast
      simp [hopen, Receiver.past] at hpast
  · rw [if_neg hinc] at hstate
    have hword : c'.word = c.word := by rw [Channel.word, hstate, Channel.word]
    have hnext : SendPc.charge (c.nextPc s) + (if s.pc = .pushing then 1 else 0) =
        SendPc.charge s.pc := by
      cases hpc : s.pc <;> simp [Channel.nextPc, hpc, SendPc.charge] <;> grind
    refine ⟨by rw [hstate, hword, h.state], hword ▸ h.bounded, ?_, ?_, ?_⟩
    · rw [hword, hreceiver]
      omega
    · rw [hword, hreceiver, h.isOpen]
    · rw [hword, hreceiver]
      exact h.gone

/-- The receiver moves on without touching the state word. -/
theorem Counted.receive (h : Counted c) (hstate : c'.state = c.state) (hsends : c'.sends = c.sends)
    (hheld : c'.messageQueue.length + c'.receiver.held.length =
      c.messageQueue.length + c.receiver.held.length)
    (hpast : c'.receiver.past = c.receiver.past)
    (hgone : c'.receiver = .gone → c.word.numMessages = 0) : Counted c' := by
  have hword : c'.word = c.word := by rw [Channel.word, hstate, Channel.word]
  have hcount := h.count
  refine ⟨by rw [hstate, hword, h.state], hword ▸ h.bounded, ?_, ?_, hword ▸ hgone⟩
  · rw [hword, Channel.total, hsends, ← Channel.total]
    omega
  · rw [hword, hpast, h.isOpen]

theorem deliver_frame (c : Channel τ) (caller : Caller) (m : τ) :
    (c.deliver caller m).sends = c.sends ∧
      (c.deliver caller m).messageQueue = c.messageQueue ∧
      (c.deliver caller m).receiver.held = [] ∧ (c.deliver caller m).receiver.past = caller.past ∧
      (c.deliver caller m).receiver ≠ .gone := by
  cases caller <;> simp [Channel.deliver, Receiver.held, Receiver.past, Caller.past]

/-- Taking the message out of the hands of the receiver lowers the count. -/
theorem Counted.state_decrement {caller : Caller} {m : τ} (h : Counted c)
    (hreceiver : c.receiver = .decrement caller m) : ∃ n, c.word.numMessages = n + 1 ∧
      n < maxCapacity ∧ fetchSub c.state = encodeState { c.word with numMessages := n } := by
  have hcount := h.count
  have hbounded := h.bounded
  rw [hreceiver] at hcount
  simp only [Receiver.held, List.length_singleton] at hcount
  obtain ⟨n, hn⟩ : ∃ n, c.word.numMessages = n + 1 := ⟨c.word.numMessages - 1, by omega⟩
  have hlt : n < maxCapacity := by omega
  exact ⟨n, hn, hlt, by rw [h.state, ← fetchSub_encodeState hlt, ← hn]⟩

theorem Counted.deliver {caller : Caller} {m : τ} (h : Counted c)
    (hreceiver : c.receiver = .decrement caller m) :
    Counted { c.deliver caller m with state := fetchSub c.state } := by
  have hcount := h.count
  have hopen := h.isOpen
  rw [hreceiver] at hcount hopen
  simp only [Receiver.held, List.length_singleton] at hcount
  obtain ⟨n, hn, hlt, hstate⟩ := h.state_decrement hreceiver
  obtain ⟨hsends, hqueue, hheld, hpast, hgone⟩ := deliver_frame c caller m
  set c' : Channel τ := { c.deliver caller m with state := fetchSub c.state }
  have hnew : c'.state = encodeState { c.word with numMessages := n } := hstate
  have hword := word_of_state hnew hlt.le
  have htotal : c'.total SendPc.charge = c.total SendPc.charge := by
    rw [Channel.total, show c'.sends = c.sends from hsends, Channel.total]
  have hlength : c'.messageQueue.length = c.messageQueue.length := congrArg List.length hqueue
  have hnone : c'.receiver.held.length = 0 := congrArg List.length hheld
  refine ⟨by rw [hword, hnew], by rw [hword]; exact hlt.le, ?_, ?_, fun h' => absurd h' hgone⟩
  · rw [hword, htotal, hlength, hnone]
    change n = _
    omega
  · rw [hword]
    exact hopen.trans (congrArg Bool.not hpast.symm)

theorem Counted.setClosed (h : Counted c) (hreceiver : c.receiver = .close) :
    c.setClosed = { c with state := clearOpen c.state } ∧
      clearOpen c.state = encodeState { c.word with isOpen := false } := by
  have hopen : c.word.isOpen = true := by
    rw [h.isOpen, hreceiver]
    rfl
  exact ⟨by rw [Channel.setClosed, if_pos hopen], by rw [h.state, clearOpen_encodeState h.bounded]⟩

theorem Counted.close (h : Counted c) (hreceiver : c.receiver = .close) :
    Counted { c.setClosed with receiver := .unpark .closing } := by
  have hcount := h.count
  rw [hreceiver] at hcount
  obtain ⟨hclosed, hstate⟩ := h.setClosed hreceiver
  rw [hclosed]
  set c' : Channel τ := { c with state := clearOpen c.state, receiver := .unpark .closing }
  have hword := word_of_state (c := c') hstate h.bounded
  exact ⟨by rw [hword]; exact hstate, by rw [hword]; exact h.bounded, by rw [hword]; exact hcount,
    by rw [hword]; rfl, nofun⟩

theorem state_recv (c : Channel τ) : c.recv.state = match c.receiver with
    | .decrement _ _ => fetchSub c.state
    | .close => c.setClosed.state
    | _ => c.state := by
  unfold Channel.recv
  cases c.receiver with
  | next caller => dsimp only; split <;> rfl
  | unpark why =>
      dsimp only
      split
      · rfl
      · cases why <;> rfl
      · rfl
  | notify x why => cases why <;> rfl
  | check caller => cases caller <;> cases hword : c.word.isClosed <;> simp [Channel.empty, hword]
  | _ => rfl

theorem Counted.recv (h : Counted c) : Counted c.recv := by
  cases hreceiver : c.receiver with
  | idle => simpa only [Channel.recv, hreceiver] using h
  | gone => simpa only [Channel.recv, hreceiver] using h
  | next caller =>
      simp only [Channel.recv, hreceiver]
      rcases hqueue : c.messageQueue with _ | ⟨⟨m, _ | t⟩, rest⟩
      · refine h.receive rfl rfl ?_ ?_ ?_ <;>
          simp [popSpin, hreceiver, hqueue, Receiver.held, Receiver.past]
      · refine h.receive rfl rfl ?_ ?_ ?_ <;>
          simp [popSpin, hreceiver, hqueue, Receiver.held, Receiver.past, Unparking.held,
            Unparking.past]
      · exact h
  | unpark why =>
      simp only [Channel.recv, hreceiver]
      rcases hqueue : c.parkedQueue with _ | ⟨⟨x, _ | t⟩, rest⟩
      · cases why <;> refine h.receive rfl rfl ?_ ?_ ?_ <;>
          simp [popSpin, hreceiver, Receiver.held, Receiver.past, Unparking.held, Unparking.past,
            Channel.unparked, Caller.past]
      · refine h.receive rfl rfl ?_ ?_ ?_ <;>
          simp [popSpin, hreceiver, Receiver.held, Receiver.past]
      · exact h
  | notify x why =>
      simp only [Channel.recv, hreceiver]
      cases why <;> refine h.receive rfl rfl ?_ ?_ ?_ <;>
        simp [hreceiver, Receiver.held, Receiver.past, Unparking.held, Unparking.past,
          Channel.notify, Channel.setParked]
  | decrement caller m =>
      simp only [Channel.recv, hreceiver]
      exact h.deliver hreceiver
  | check caller =>
      simp only [Channel.recv, hreceiver]
      have hnum : c.word.isClosed = true → c.word.numMessages = 0 := by
        simp [State.isClosed]
      cases hclosed : c.word.isClosed with
      | true =>
          cases caller <;> refine h.receive ?_ ?_ ?_ ?_ (fun _ => hnum hclosed) <;>
            simp [Channel.empty, hclosed, hreceiver, Receiver.held, Receiver.past, Caller.past]
      | false =>
          cases caller <;> refine h.receive ?_ ?_ ?_ ?_ ?_ <;>
            simp [Channel.empty, hclosed, hreceiver, Receiver.held, Receiver.past, Caller.past]
  | register =>
      simp only [Channel.recv, hreceiver]
      refine h.receive rfl rfl ?_ ?_ ?_ <;>
        simp [hreceiver, Receiver.held, Receiver.past, Caller.past]
  | recheck =>
      simp only [Channel.recv, hreceiver]
      have hnum : c.word.isClosed = true → c.word.numMessages = 0 := by
        simp [State.isClosed]
      split
      · refine h.receive rfl rfl ?_ ?_ ?_ <;> simp [*, Receiver.held, Receiver.past]
      · refine h.receive rfl rfl ?_ ?_ ?_ <;>
          simp [hreceiver, Receiver.held, Receiver.past, Caller.past]
  | close =>
      simp only [Channel.recv, hreceiver]
      exact h.close hreceiver

/-- The receiver lowers the count by the message it gives out, and by nothing else. -/
theorem Counted.word_recv (h : Counted c) : c.recv.word.numMessages + (match c.receiver with
    | .decrement _ _ => 1
    | _ => 0) = c.word.numMessages := by
  have hstate := state_recv c
  cases hreceiver : c.receiver with
  | decrement caller m =>
      obtain ⟨n, hn, hlt, hnew⟩ := h.state_decrement hreceiver
      rw [hreceiver] at hstate
      rw [word_of_state (hstate.trans hnew) hlt.le, hn]
  | close =>
      obtain ⟨hclosed, hnew⟩ := h.setClosed hreceiver
      rw [hreceiver] at hstate
      rw [word_of_state ((hstate.trans (congrArg Channel.state hclosed)).trans hnew) h.bounded]
      rfl
  | _ =>
      rw [hreceiver] at hstate
      have hword : c.recv.word = c.word := congrArg decodeState hstate
      rw [hword]
      rfl

theorem Advanced.word (a : Advanced c i s c')
    (hroom : s.pc = .incrementing → c.word.numMessages < maxCapacity) :
    c'.word.numMessages =
      c.word.numMessages + if s.pc = .incrementing ∧ c.word.isOpen then 1 else 0 := by
  have hstate := a.state
  split at hstate
  · rw [word_of_state hstate (hroom ‹_ ∧ _›.1), if_pos ‹_›]
  · rw [Channel.word, hstate, Channel.word, if_neg ‹_›, Nat.add_zero]

theorem Counted.step (h : Counted c) {a : Action τ} (ha : c.Offered a) : Counted (c.step a) := by
  cases a with
  | send sender kind message =>
      have hstart : (c.start sender kind message).total SendPc.charge =
          c.total SendPc.charge := by
        cases kind <;> simp [Channel.start, Channel.total, SendPc.charge]
      exact ⟨h.state, h.bounded, h.count.trans (by rw [← hstart]; rfl), h.isOpen, h.gone⟩
  | advance i =>
      obtain ⟨s, hs, -, hroom⟩ := ha
      simp only [Channel.step, hs]
      exact h.advance hs (advanced hs) hroom
  | clone =>
      simp only [Channel.step, Channel.clone]
      split
      · exact h
      · exact h.receive rfl rfl rfl rfl h.gone
  | dropSender sender => exact h.receive rfl rfl rfl rfl h.gone
  | wakeLast =>
      obtain ⟨waker, woken, hwake⟩ := wake_eq c
      simp only [Channel.step, hwake]
      exact h.receive rfl rfl rfl rfl h.gone
  | poll =>
      refine h.receive rfl rfl ?_ ?_ ?_ <;>
        simp [Channel.step, show c.receiver = .idle from ha, Receiver.held, Receiver.past,
          Caller.past]
  | resize cap =>
      have hidle : c.receiver = .idle := ha
      by_cases hlt : c.buffer < cap <;> refine h.receive rfl rfl ?_ ?_ ?_ <;>
        simp [Channel.step, Channel.setCapacity, hlt, hidle, Receiver.held, Receiver.past,
          Unparking.held, Unparking.past]
  | close =>
      refine h.receive rfl rfl ?_ ?_ ?_ <;>
        simp [Channel.step, show c.receiver = .idle from ha, Receiver.held, Receiver.past]
  | recv => exact h.recv

end Counting

end ActixPura.MailboxChannel
