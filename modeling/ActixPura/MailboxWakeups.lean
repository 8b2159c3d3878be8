import ActixPura.MailboxDelivery

/-!
# The receiver of a mailbox does not sleep through a message

`poll_next` looks at the queue, registers the waker and looks again. A message that enters the queue
before the second look is found by it, and the send of a later one finds the waker. The same waker
is used by the drop of the last sender, so that the receiver can see that nobody is left.
-/

namespace ActixPura.MailboxChannel

open Runs MpscQueue

variable {τ : Type}

/-- The poll has registered the waker and not yet answered with a message. -/
def Receiver.armed : Receiver τ → Bool
  | .next .second | .check .second => true
  | _ => false

/-- A send has put its message into the queue and still has to wake the receiver. -/
def SendPc.signals : SendPc → Bool
  | .linking | .signalling => true
  | _ => false

/-- The sends whose messages are in the queue, in the order of the queue. -/
def Channel.queued (c : Channel τ) : List ℕ :=
  c.pushed.drop (c.pushed.length - c.messageQueue.length)

def Channel.Signals (c : Channel τ) (i : ℕ) : Prop := ∃ s, c.sends[i]? = some s ∧ s.pc.signals

/-- Unless the receiver was woken, its waker is registered, and each of the messages in the queue
comes from a send that still has to wake it. -/
structure Awake (c : Channel τ) : Prop where
  registered : (c.asleep ∨ c.receiver.armed) → c.woken ∨ c.waker
  watched : (c.asleep ∨ c.receiver = .check .second) → c.woken ∨ ∀ i ∈ c.queued, c.Signals i
  polling : c.receiver.armed ∨ c.receiver = .next .first ∨ c.receiver = .check .first ∨
    c.receiver = .register → c.asleep = false

section Waking

variable {c c' : Channel τ} {i : ℕ} {s : Send τ}

theorem queued_of_empty (h : c.messageQueue = []) : c.queued = [] := by
  simp [Channel.queued, h]

/-- What is taken out of the queue leaves fewer sends. -/
theorem queued_subset (hpushed : c'.pushed = c.pushed)
    (hqueue : c'.messageQueue.length ≤ c.messageQueue.length) : c'.queued ⊆ c.queued := by
  rw [Channel.queued, Channel.queued, hpushed]
  exact List.drop_subset_drop_left _ (by omega)

/-- The messages of these sends are the messages in the queue. -/
theorem Ordered.queued (h : Ordered c) :
    c.queued.map c.messageOf = c.messageQueue.map fun cell => some cell.value := by
  have horder := h.order
  have hlength := congrArg List.length horder
  simp only [List.length_map, List.length_append] at hlength
  have hstart : c.pushed.length - c.messageQueue.length =
      (c.given ++ c.receiver.held).length := by
    rw [List.length_append]
    omega
  rw [Channel.queued, List.map_drop, horder, hstart, ← List.map_drop, List.drop_left, List.map_map]
  rfl

/-- A push adds its send at the end. -/
theorem Advanced.queued (a : Advanced c i s c') :
    c'.queued = c.queued ++ if s.pc = .pushing then [i] else [] := by
  rw [Channel.queued, a.pushed, a.messageQueue, Channel.queued]
  cases hpc : s.pc with
  | pushing =>
      simp only [if_true, List.length_append, List.length_singleton]
      rw [Nat.add_sub_add_right, List.drop_append_of_le_length (Nat.sub_le ..)]
  | _ => simp

theorem wake_cases (c : Channel τ) : c.wake.woken ∨
    (c.waker = false ∧ c.wake.waker = c.waker ∧ c.wake.woken = c.woken) := by
  unfold Channel.wake
  cases hwaker : c.waker <;> simp [hwaker]

theorem Awake.advance (h : Awake c) (hs : c.sends[i]? = some s) (a : Advanced c i s c') :
    Awake c' := by
  obtain ⟨hreceiver, hasleep, -⟩ := a.frame
  have hwaker := a.waker
  have hwoken := a.woken
  by_cases hpc : s.pc = .signalling
  · simp only [hpc, if_true] at hwaker hwoken
    rcases wake_cases c with hyes | ⟨hnone, hsame, hsame'⟩
    · exact ⟨fun _ => Or.inl (hwoken ▸ hyes), fun _ => Or.inl (hwoken ▸ hyes),
        by rw [hreceiver, hasleep]; exact h.polling⟩
    · -- a waker that is not registered was used since, or nobody waits for it
      have hcalled (hwait : c.asleep ∨ c.receiver.armed) : c'.woken = true := by
        rw [hwoken, hsame']
        exact (h.registered hwait).resolve_right (by simp [hnone])
      rw [← hreceiver, ← hasleep] at hcalled
      refine ⟨fun hwait => Or.inl (hcalled hwait), fun hwait => Or.inl (hcalled ?_),
        by rw [hreceiver, hasleep]; exact h.polling⟩
      rcases hwait with hsleep | hcheck
      · exact Or.inl hsleep
      · exact Or.inr (by simp [hcheck, Receiver.armed])
  · rw [if_neg hpc] at hwaker hwoken
    refine ⟨by rw [hreceiver, hasleep, hwaker, hwoken]; exact h.registered, ?_,
      by rw [hreceiver, hasleep]; exact h.polling⟩
    rw [hreceiver, hasleep, hwoken]
    intro hwait
    have hsends (j : ℕ) : c'.sends[j]? =
        if i = j then some { s with pc := c.nextPc s } else c.sends[j]? := by
      rw [a.sends, sends_goto hs]
    -- the send goes on to signal what it pushed, and no other send moves
    have hsignals (j : ℕ) (hj : c.Signals j) : c'.Signals j := by
      obtain ⟨t, ht, hsignals⟩ := hj
      by_cases hij : i = j
      · subst hij
        obtain rfl : s = t := Option.some.inj (hs.symm.trans ht)
        refine ⟨_, by rw [hsends, if_pos rfl], ?_⟩
        cases hpc' : s.pc <;> simp_all [Channel.nextPc, SendPc.signals]
      · exact ⟨t, by rw [hsends, if_neg hij, ht], hsignals⟩
    refine (h.watched hwait).imp_right fun hall j hj => ?_
    rw [a.queued, List.mem_append] at hj
    rcases hj with hold | hnew
    · exact hsignals j (hall j hold)
    · split at hnew
      · obtain rfl : j = i := by simpa using hnew
        exact ⟨_, by rw [hsends, if_pos rfl], by simp_all [Channel.nextPc, SendPc.signals]⟩
      · simp at hnew

/-- The receiver moves on without falling asleep. -/
theorem Awake.receive (h : Awake c) (hsends : c'.sends = c.sends) (hwoken : c'.woken = c.woken)
    (hwaker : c'.waker = c.waker) (hasleep : c'.asleep = c.asleep) (hpushed : c'.pushed = c.pushed)
    (hqueue : c'.messageQueue.length ≤ c.messageQueue.length)
    (harmed : c'.receiver.armed → c.receiver.armed)
    (hcheck : c'.receiver = .check .second → c.receiver = .check .second ∨ c'.messageQueue = [])
    (hpolling : c'.receiver.armed ∨ c'.receiver = .next .first ∨ c'.receiver = .check .first ∨
      c'.receiver = .register → c.asleep = false) : Awake c' := by
  refine ⟨?_, ?_, by rwa [hasleep]⟩
  · rw [hwoken, hwaker, hasleep]
    exact fun hwait => h.registered (hwait.imp_right harmed)
  · have hsubset := queued_subset hpushed hqueue
    have hsignals (j : ℕ) (hj : c.Signals j) : c'.Signals j := by rwa [Channel.Signals, hsends]
    rw [hwoken, hasleep]
    rintro (hsleep | hnow)
    · exact (h.watched (Or.inl hsleep)).imp_right fun hall j hj => hsignals j (hall j (hsubset hj))
    · rcases hcheck hnow with hold | hempty
      · exact (h.watched (Or.inr hold)).imp_right fun hall j hj => hsignals j (hall j (hsubset hj))
      · exact Or.inr (by simp [queued_of_empty hempty])

theorem Awake.wake (h : Awake c) : Awake c.wake := by
  unfold Channel.wake
  split
  · exact ⟨fun _ => Or.inl rfl, fun _ => Or.inl rfl, h.polling⟩
  · exact h

theorem Awake.deliver {caller : Caller} {m : τ} (h : Awake c) (word : ℕ) :
    Awake { c.deliver caller m with state := word } := by
  cases caller <;> refine h.receive rfl rfl rfl rfl rfl le_rfl ?_ ?_ ?_ <;>
    simp [Channel.deliver, Receiver.armed]

theorem Awake.check {caller : Caller} (h : Awake c) (hreceiver : c.receiver = .check caller) :
    Awake (c.empty caller) := by
  cases hclosed : c.word.isClosed with
  | true =>
      cases caller <;> refine h.receive ?_ ?_ ?_ ?_ ?_ ?_ ?_ ?_ ?_ <;>
        simp [Channel.empty, hclosed, Receiver.armed]
  | false =>
      cases caller with
      | first =>
          have hawake := h.polling (Or.inr (Or.inr (Or.inl hreceiver)))
          refine h.receive ?_ ?_ ?_ ?_ ?_ ?_ ?_ ?_ ?_ <;>
            simp [Channel.empty, hclosed, Receiver.armed, hawake]
      | drain =>
          refine h.receive ?_ ?_ ?_ ?_ ?_ ?_ ?_ ?_ ?_ <;>
            simp [Channel.empty, hclosed, Receiver.armed]
      | second =>
          -- the receiver falls asleep as it was after its second look
          have hregistered := h.registered (Or.inr (by simp [hreceiver, Receiver.armed]))
          have hwatched := h.watched (Or.inr hreceiver)
          simp only [Channel.empty, hclosed]
          exact ⟨fun _ => hregistered, fun _ => hwatched, by simp [Receiver.armed]⟩

theorem Awake.recv (h : Awake c) : Awake c.recv := by
  cases hreceiver : c.receiver with
  | idle => simpa only [Channel.recv, hreceiver] using h
  | gone => simpa only [Channel.recv, hreceiver] using h
  | next caller =>
      have hpolling := h.polling
      simp only [Channel.recv, hreceiver]
      rcases hqueue : c.messageQueue with _ | ⟨⟨m, _ | t⟩, rest⟩
      · refine h.receive rfl rfl rfl rfl rfl (Nat.zero_le _) ?_ (fun _ => Or.inr rfl) ?_ <;>
          cases caller <;> simp_all [popSpin, Receiver.armed]
      · refine h.receive rfl rfl rfl rfl rfl ?_ ?_ ?_ ?_ <;> simp [popSpin, hqueue, Receiver.armed]
      · exact h
  | unpark why =>
      simp only [Channel.recv, hreceiver]
      rcases hqueue : c.parkedQueue with _ | ⟨⟨x, _ | t⟩, rest⟩
      · cases why <;> refine h.receive rfl rfl rfl rfl rfl le_rfl ?_ ?_ ?_ <;>
          simp [popSpin, Channel.unparked, Receiver.armed]
      · refine h.receive rfl rfl rfl rfl rfl le_rfl ?_ ?_ ?_ <;> simp [popSpin, Receiver.armed]
      · exact h
  | notify x why =>
      simp only [Channel.recv, hreceiver]
      cases why <;> refine h.receive rfl rfl rfl rfl rfl le_rfl ?_ ?_ ?_ <;>
        simp [Channel.notify, Receiver.armed]
  | decrement caller m =>
      simp only [Channel.recv, hreceiver]
      exact h.deliver _
  | check caller =>
      simp only [Channel.recv, hreceiver]
      exact h.check hreceiver
  | register =>
      have hawake := h.polling (Or.inr (Or.inr (Or.inr hreceiver)))
      simp only [Channel.recv, hreceiver]
      exact ⟨fun _ => Or.inr rfl, by simp [hawake], fun _ => hawake⟩
  | recheck =>
      simp only [Channel.recv, hreceiver]
      cases hclosed : c.word.isClosed <;> refine h.receive rfl rfl rfl rfl rfl le_rfl ?_ ?_ ?_ <;>
        simp [Receiver.armed]
  | close =>
      obtain ⟨word, hclosed⟩ := setClosed_eq c
      simp only [Channel.recv, hreceiver, hclosed]
      refine h.receive rfl rfl rfl rfl rfl le_rfl ?_ ?_ ?_ <;> simp [Receiver.armed]

theorem Awake.step (h : Awake c) {a : Action τ} (ha : c.Offered a) : Awake (c.step a) := by
  cases a with
  | send sender kind message =>
      refine ⟨h.registered, fun hwait => ?_, h.polling⟩
      refine (h.watched hwait).imp_right fun hall j hj => ?_
      obtain ⟨s, hs, hsignals⟩ := hall j hj
      refine ⟨s, ?_, hsignals⟩
      have hlt := (List.getElem?_eq_some_iff.mp hs).1
      exact (List.getElem?_append_left hlt).trans hs
  | advance i =>
      obtain ⟨s, hs, -⟩ := ha
      simp only [Channel.step, hs]
      exact h.advance hs (advanced hs)
  | clone =>
      simp only [Channel.step, Channel.clone]
      split
      · exact h
      · exact ⟨h.registered, h.watched, h.polling⟩
  | dropSender sender => exact ⟨h.registered, h.watched, h.polling⟩
  | wakeLast =>
      have hwake := h.wake
      exact ⟨hwake.registered, hwake.watched, hwake.polling⟩
  | poll => exact ⟨by simp [Channel.step, Receiver.armed], by simp [Channel.step], fun _ => rfl⟩
  | resize cap =>
      have hidle : c.receiver = .idle := ha
      simp only [Channel.step, Channel.setCapacity]
      split <;> refine h.receive rfl rfl rfl rfl rfl le_rfl ?_ ?_ ?_ <;> simp [Receiver.armed]
  | close =>
      refine h.receive rfl rfl rfl rfl rfl le_rfl ?_ ?_ ?_ <;> simp [Channel.step, Receiver.armed]
  | recv => exact h.recv

theorem awake_channel (buffer : ℕ) : Awake (Channel.channel τ buffer) :=
  ⟨by simp [Channel.channel, Receiver.armed], by simp [Channel.channel], fun _ => rfl⟩

theorem awake_run {as : List (Action τ)} (h : Awake c)
    (has : Admissible Channel.step Channel.Offered c as) : Awake (run Channel.step c as) :=
  invariant_run (I := Awake) (fun _ _ hawake ha => hawake.step ha) h has

theorem recv_frame (c : Channel τ) : c.recv.woken = c.woken ∧ (c.waker → c.recv.waker) ∧
    c.recv.numSenders = c.numSenders ∧ c.recv.lastDrops = c.lastDrops := by
  obtain ⟨word, hclosed⟩ := setClosed_eq c
  unfold Channel.recv
  cases c.receiver with
  | next caller => dsimp only; split <;> exact ⟨rfl, id, rfl, rfl⟩
  | unpark why =>
      dsimp only
      split
      · exact ⟨rfl, id, rfl, rfl⟩
      · cases why <;> exact ⟨rfl, id, rfl, rfl⟩
      · exact ⟨rfl, id, rfl, rfl⟩
  | notify x why => cases why <;> exact ⟨rfl, id, rfl, rfl⟩
  | decrement caller m => cases caller <;> exact ⟨rfl, id, rfl, rfl⟩
  | check caller =>
      cases caller <;> cases hword : c.word.isClosed <;> simp [Channel.empty, hword]
  | register => exact ⟨rfl, fun _ => rfl, rfl, rfl⟩
  | close =>
      simp only [hclosed]
      exact ⟨trivial, id, trivial, trivial⟩
  | _ => exact ⟨rfl, id, rfl, rfl⟩

/-- The receiver was woken, or its waker is registered and the last drop is still to come or to
wake it. -/
def Connected (c : Channel τ) : Prop :=
  c.woken ∨ (c.waker ∧ (c.numSenders ≠ 0 ∨ c.lastDrops ≠ 0))

theorem connected_step (h : Connected c) {a : Action τ} (ha : c.Offered a) (hpoll : a ≠ .poll) :
    Connected (c.step a) := by
  have hwake (hw : c.woken ∨ c.waker) : c.wake.woken := by
    unfold Channel.wake
    split
    · rfl
    · exact hw.resolve_right ‹_›
  cases a with
  | send sender kind message => exact h
  | advance i =>
      obtain ⟨s, hs, -⟩ := ha
      have a := advanced hs
      obtain ⟨-, -, -, -, -, hsenders, hdrops⟩ := a.frame
      have hwaker := a.waker
      have hwoken := a.woken
      simp only [Channel.step, hs, Connected, hsenders, hdrops]
      by_cases hpc : s.pc = .signalling
      · rw [if_pos hpc] at hwoken
        exact Or.inl (hwoken.trans (hwake (h.imp_right And.left)))
      · rw [if_neg hpc] at hwaker hwoken
        rw [hwaker, hwoken]
        exact h
  | clone =>
      simp only [Channel.step, Channel.clone]
      split
      · exact h
      · exact h.imp_right (And.imp_right fun _ => Or.inl (Nat.succ_ne_zero _))
  | dropSender sender =>
      refine h.imp_right (And.imp_right fun hleft => ?_)
      by_cases hone : c.numSenders = 1
      · exact Or.inr (by simp [Channel.step, Channel.dropSender, hone])
      · simp only [Channel.step, Channel.dropSender, hone, if_false]
        omega
  | wakeLast => exact Or.inl (hwake (h.imp_right And.left))
  | poll => exact absurd rfl hpoll
  | resize cap => exact h
  | close => exact h
  | recv =>
      obtain ⟨hwoken, hwaker, hsenders, hdrops⟩ := recv_frame c
      simp only [Channel.step, Connected, hwoken, hsenders, hdrops]
      exact h.imp_right (And.imp_left hwaker)

/-- Where the send of every queued message has still to signal, and all sends have returned, there
is no message. -/
theorem numMessages_eq_zero {d : Channel τ} (hsound : Sound d) (hidle : d.receiver = .idle)
    (hall : ∀ i ∈ d.queued, d.Signals i) (hreturned : ∀ s ∈ d.sends, s.pc.Returned) :
    d.word.numMessages = 0 := by
  have hcharge : d.total SendPc.charge = 0 := by
    refine List.sum_eq_zero_iff.mpr fun n hn => ?_
    obtain ⟨s, hs, rfl⟩ := List.mem_map.mp hn
    have := hreturned s hs
    cases hpc : s.pc <;> simp_all [SendPc.Returned, SendPc.charge]
  have hnone : d.queued = [] := by
    refine List.eq_nil_iff_forall_not_mem.mpr fun i hi => ?_
    obtain ⟨s, hs, hsignals⟩ := hall i hi
    have := hreturned s (List.mem_of_getElem? hs)
    cases hpc : s.pc <;> simp_all [SendPc.Returned, SendPc.signals]
  have hempty : d.messageQueue = [] := by
    have hmessages := hsound.ordered.queued
    rw [hnone, List.map_nil] at hmessages
    exact List.map_eq_nil_iff.mp hmessages.symm
  have hcount := hsound.counted.count
  change d.word.numMessages = _ at hcount
  rw [hcount, hcharge, hempty, hidle]
  rfl

theorem connected_run {c : Channel τ} {after : List (Action τ)} (hconnected : Connected c)
    (hafter : Admissible Channel.step Channel.Offered c after) (hpoll : .poll ∉ after) :
    Connected (run Channel.step c after) := by
  have hnopoll : Admissible Channel.step (fun e a => e.Offered a ∧ a ≠ .poll) c after := by
    refine (admissible_congr (I := fun _ => True) (P := fun a => a ≠ .poll)
      (fun _ _ _ _ _ => trivial) (fun e a _ ha => ?_) trivial ?_).mp hafter
    · simp [ha]
    · rintro a ha rfl
      exact hpoll ha
  exact invariant_run (I := Connected) (fun e a he ha => connected_step he ha.1 ha.2) hconnected
    hnopoll

/-- A receiver that sleeps and was not woken has its waker registered, the send of every message in
the queue has still to wake it, and once the sends have returned there is no message at all. Nor
does it miss the drop of the last sender. -/
theorem receiver_never_oversleeps (buffer : ℕ) (before after : List (Action τ))
    (has : Admissible Channel.step Channel.Offered (Channel.channel τ buffer)
      (before ++ after)) :
    let c := run Channel.step (Channel.channel τ buffer) before
    let d := run Channel.step c after
    (d.asleep → d.woken = false → d.waker = true ∧
      d.queued.map d.messageOf = d.messageQueue.map (fun cell => some cell.value) ∧
      (∀ i ∈ d.queued, d.Signals i) ∧
      (d.receiver = .idle → (∀ s ∈ d.sends, s.pc.Returned) → d.word.numMessages = 0)) ∧
    (c.asleep → c.numSenders ≠ 0 → .poll ∉ after → d.woken = false →
      d.numSenders ≠ 0 ∨ d.lastDrops ≠ 0) := by
  intro c d
  obtain ⟨hbefore, hafter⟩ := admissible_append.mp has
  have hc : Awake c := awake_run (awake_channel buffer) hbefore
  have hd : Awake d := awake_run hc hafter
  have hsound := sound_run (sound_run (sound_channel buffer) hbefore) hafter
  refine ⟨fun hasleep hwoken => ?_, fun hasleep hsenders hpoll hwoken => ?_⟩
  · have hall := (hd.watched (Or.inl hasleep)).resolve_left (by simp [hwoken])
    refine ⟨(hd.registered (Or.inl hasleep)).resolve_left (by simp [hwoken]),
      hsound.ordered.queued, hall, fun hidle hreturned =>
        numMessages_eq_zero hsound hidle hall hreturned⟩
  · have hconnected : Connected c := by
      cases hw : c.woken with
      | true => exact Or.inl hw
      | false =>
          exact Or.inr ⟨(hc.registered (Or.inl hasleep)).resolve_left (by simp [hw]),
            Or.inl hsenders⟩
    have hstill : Connected d := connected_run hconnected hafter hpoll
    exact (hstill.resolve_left (by simp [hwoken])).2

/-- The receiver falls asleep, and then two messages come. -/
def sleepingPoll : List (Action ℕ) := .poll :: List.replicate 5 .recv

def twoSends : List (Action ℕ) :=
  [.send 0 .doSend 7, .send 0 .doSend 8, .advance 0, .advance 1, .advance 1, .advance 0]

theorem receiver_never_oversleeps_twoSends :
    let d := run Channel.step (run Channel.step (Channel.channel ℕ 1) sleepingPoll) twoSends
    d.waker = true ∧ d.queued = [1, 0] ∧ d.messageQueue = [⟨8, some 1⟩, ⟨7, some 0⟩] ∧
      d.Signals 1 ∧ d.Signals 0 := by
  intro d
  have h := receiver_never_oversleeps 1 sleepingPoll twoSends (by decide +kernel)
  obtain ⟨hwaker, -, hall, -⟩ := h.1 (by decide +kernel) (by decide +kernel)
  have hqueued : d.queued = [1, 0] := by decide +kernel
  exact ⟨hwaker, hqueued, by decide +kernel, hall 1 (by rw [hqueued]; decide),
    hall 0 (by rw [hqueued]; decide)⟩

end Waking

end ActixPura.MailboxChannel
