import ActixPura.MailboxCounting

/-!
# What the channel of a mailbox does with its messages

The messages leave in the order of their pushes, each of them once. Between the two queues there is
a balance that no single access shows: a send parks before it pushes its message, and the receiver
unparks one handle for each message, so that an empty channel has no parked handle.
-/

namespace ActixPura.MailboxChannel

open Runs MpscQueue

variable {τ : Type}

/-! ## The order of the messages -/

def items (polls : List (Polled τ)) : List τ :=
  polls.filterMap fun
    | .item m => some m
    | _ => none

/-- The messages that the receiver took out, those of its drop at the end. -/
def Channel.given (c : Channel τ) : List τ := items c.polls ++ c.dropped

def Channel.messageOf (c : Channel τ) (i : ℕ) : Option τ := c.sends[i]?.map Send.message

/-- The message of the send is in the queue or was. -/
def SendPc.pushed : SendPc → Bool
  | .linking | .signalling | .returned .accepted => true
  | _ => false

structure Ordered (c : Channel τ) : Prop where
  order : c.pushed.map c.messageOf =
    (c.given ++ c.receiver.held ++ c.messageQueue.map Cell.value).map some
  distinct : c.pushed.Nodup
  once : ∀ i, i ∈ c.pushed ↔ ∃ s, c.sends[i]? = some s ∧ s.pc.pushed
  late : c.dropped = [] ∨ c.receiver.past
  endless : .ended ∉ c.polls

theorem getElem?_snoc {α : Type*} (xs : List α) (x : α) (i : ℕ) :
    (xs ++ [x])[i]? = if i = xs.length then some x else xs[i]? := by
  rcases Nat.lt_trichotomy i xs.length with hlt | rfl | hgt
  · rw [List.getElem?_append_left hlt, if_neg hlt.ne]
  · rw [List.getElem?_concat_length, if_pos rfl]
  · have hlen : (xs ++ [x]).length ≤ i := by simpa using hgt
    rw [if_neg hgt.ne', List.getElem?_eq_none hlen, List.getElem?_eq_none hgt.le]

section Order

variable {c c' : Channel τ} {i j : ℕ} {s : Send τ}

theorem messageOf_goto (c : Channel τ) (i : ℕ) (pc : SendPc) :
    (c.goto i pc).messageOf = c.messageOf := by
  funext j
  by_cases hij : i = j <;> cases hj : c.sends[j]? <;>
    simp [Channel.messageOf, Channel.goto, hij, hj]

theorem sends_goto {pc : SendPc} (hs : c.sends[i]? = some s) : (c.goto i pc).sends[j]? =
    if i = j then some { s with pc := pc } else c.sends[j]? := by
  by_cases hij : i = j
  · subst hij
    simp [Channel.goto, hs]
  · simp [Channel.goto, hij]

theorem nextPc_pushed (c : Channel τ) (s : Send τ) :
    (c.nextPc s).pushed = (s.pc.pushed || decide (s.pc = .pushing)) := by
  cases hpc : s.pc with
  | incrementing =>
      cases hkind : s.kind <;> simp [Channel.nextPc, hpc, SendPc.pushed, hkind] <;> grind
  | returned outcome => cases outcome <;> simp [Channel.nextPc, hpc, SendPc.pushed]
  | _ => simp [Channel.nextPc, hpc, SendPc.pushed] <;> grind

theorem value_link (t : ℕ) (cells : List (Cell τ)) :
    (cells.map (Cell.link t)).map Cell.value = cells.map Cell.value := by
  simp [link_value, Function.comp_def]

theorem Ordered.advance (h : Ordered c) (hs : c.sends[i]? = some s) (a : Advanced c i s c') :
    Ordered c' := by
  obtain ⟨hreceiver, -, hpolls, hdropped, -⟩ := a.frame
  have hmessage : c'.messageOf = c.messageOf := by
    rw [← messageOf_goto c i (c.nextPc s)]
    funext j
    rw [Channel.messageOf, a.sends, Channel.messageOf]
  have hgiven : c'.given = c.given := by rw [Channel.given, hpolls, hdropped, Channel.given]
  have hpushed := a.pushed
  have hsends (j : ℕ) : c'.sends[j]? =
      if i = j then some { s with pc := c.nextPc s } else c.sends[j]? := by
    rw [a.sends, sends_goto hs]
  have hnew : i ∉ c.pushed ∨ s.pc ≠ .pushing := by
    by_cases hpc : s.pc = .pushing
    · refine Or.inl fun hmem => ?_
      obtain ⟨t, ht, hpushed⟩ := (h.once i).mp hmem
      obtain rfl : s = t := Option.some.inj (hs.symm.trans ht)
      simp [hpc, SendPc.pushed] at hpushed
    · exact Or.inr hpc
  refine ⟨?_, ?_, fun j => ?_, by rw [hdropped, hreceiver]; exact h.late, hpolls ▸ h.endless⟩
  · rw [hmessage, hgiven, hreceiver, hpushed, a.messageQueue]
    have horder := h.order
    cases hpc : s.pc with
    | pushing =>
        have hi : c.messageOf i = some s.message := by simp [Channel.messageOf, hs]
        simp [horder, hi]
    | linking =>
        simp only [reduceCtorEq, if_false, value_link]
        exact horder
    | _ => simpa using horder
  · rw [hpushed]
    split
    · refine List.nodup_append.mpr ⟨h.distinct, List.nodup_singleton i, fun x hx y hy => ?_⟩
      rintro rfl
      obtain rfl : x = i := by simpa using hy
      exact hnew.elim (fun hni => hni hx) fun hne => hne ‹_›
    · exact h.distinct
  · rw [hsends j, hpushed]
    by_cases hij : i = j
    · subst hij
      have hold : i ∈ c.pushed ↔ s.pc.pushed = true := by
        rw [h.once]
        simp [hs]
      by_cases hpc : s.pc = .pushing
      · simp [hpc, nextPc_pushed]
      · simp [hpc, hold, nextPc_pushed]
    · have hne : j ≠ i := fun heq => hij heq.symm
      rw [if_neg hij, ← h.once j]
      split <;> simp [hne]

/-- The receiver moves on, and what it gives out is what it held or took from the queue. -/
theorem Ordered.receive (h : Ordered c) (hsends : c'.sends = c.sends)
    (hpushed : c'.pushed = c.pushed)
    (horder : c'.given ++ c'.receiver.held ++ c'.messageQueue.map Cell.value =
      c.given ++ c.receiver.held ++ c.messageQueue.map Cell.value)
    (hlate : c'.dropped = [] ∨ c'.receiver.past) (hendless : .ended ∉ c'.polls) : Ordered c' := by
  have hmessage : c'.messageOf = c.messageOf := by
    funext j
    rw [Channel.messageOf, hsends, Channel.messageOf]
  refine ⟨by rw [hmessage, hpushed, horder, h.order], hpushed ▸ h.distinct, fun i => ?_, hlate,
    hendless⟩
  rw [hpushed, hsends]
  exact h.once i

theorem Ordered.deliver {caller : Caller} {m : τ} (h : Ordered c)
    (hreceiver : c.receiver = .decrement caller m) (word : ℕ) :
    Ordered { c.deliver caller m with state := word } := by
  have hlate := h.late
  have hendless := h.endless
  rw [hreceiver] at hlate
  cases caller <;> refine h.receive ?_ ?_ ?_ ?_ ?_ <;>
    simp_all [Channel.given, Channel.deliver, Receiver.held, Receiver.past, Caller.past, items]

theorem Ordered.recv (h : Ordered c) (hc : Counted c) : Ordered c.recv := by
  have hlate := h.late
  have hendless := h.endless
  cases hreceiver : c.receiver with
  | idle => simpa only [Channel.recv, hreceiver] using h
  | gone => simpa only [Channel.recv, hreceiver] using h
  | next caller =>
      simp only [Channel.recv, hreceiver]
      rcases hqueue : c.messageQueue with _ | ⟨⟨m, _ | t⟩, rest⟩
      · refine h.receive rfl rfl ?_ ?_ hendless <;> simp_all [popSpin, Channel.given,
        Receiver.held, Receiver.past]
      · refine h.receive rfl rfl ?_ ?_ hendless <;> simp_all [popSpin,
        Channel.given, Receiver.held, Receiver.past, Unparking.held, Unparking.past]
      · exact h
  | unpark why =>
      simp only [Channel.recv, hreceiver]
      rcases hqueue : c.parkedQueue with _ | ⟨⟨x, _ | t⟩, rest⟩
      · cases why <;> refine h.receive rfl rfl ?_ ?_ hendless <;> simp_all [popSpin,
        Channel.given, Receiver.held, Receiver.past, Unparking.held, Unparking.past,
        Channel.unparked, Caller.past]
      · refine h.receive rfl rfl ?_ ?_ hendless <;> simp_all [popSpin,
        Channel.given, Receiver.held, Receiver.past]
      · exact h
  | notify x why =>
      simp only [Channel.recv, hreceiver]
      cases why <;> refine h.receive rfl rfl ?_ ?_ hendless <;> simp_all [Channel.given,
        Receiver.held, Receiver.past, Unparking.held, Unparking.past, Channel.notify,
        Channel.setParked]
  | decrement caller m =>
      simp only [Channel.recv, hreceiver]
      exact h.deliver hreceiver _
  | check caller =>
      simp only [Channel.recv, hreceiver]
      have hopen := hc.isOpen
      cases hclosed : c.word.isClosed with
      | true =>
          have hpast : caller.past = true := by
            simp only [State.isClosed, hopen, hreceiver, Receiver.past, Bool.and_eq_true,
              Bool.not_not] at hclosed
            exact hclosed.1
          cases caller <;> first | exact absurd hpast (by decide) | skip
          refine h.receive ?_ ?_ ?_ ?_ ?_ <;>
            simp_all [Channel.empty, Channel.given, Receiver.held, Receiver.past]
      | false =>
          cases caller <;> refine h.receive ?_ ?_ ?_ ?_ ?_ <;>
            simp_all [Channel.empty, Channel.given, Receiver.held, Receiver.past, Caller.past,
              items]
  | register =>
      simp only [Channel.recv, hreceiver]
      refine h.receive rfl rfl ?_ ?_ hendless <;>
        simp_all [Channel.given, Receiver.held, Receiver.past]
  | recheck =>
      simp only [Channel.recv, hreceiver]
      refine h.receive rfl rfl ?_ ?_ hendless <;> cases c.word.isClosed <;>
        simp_all [Channel.given, Receiver.held, Receiver.past, Caller.past]
  | close =>
      obtain ⟨word, hclosed⟩ := setClosed_eq c
      simp only [Channel.recv, hreceiver, hclosed]
      refine h.receive rfl rfl ?_ (Or.inr rfl) hendless
      simp [Channel.given, hreceiver, Receiver.held, Unparking.held]

theorem Ordered.start (h : Ordered c) (sender : ℕ) (kind : SendKind) (message : τ) :
    Ordered (c.start sender kind message) := by
  obtain ⟨t, hsends, hpc⟩ : ∃ t : Send τ,
      (c.start sender kind message).sends = c.sends ++ [t] ∧ t.pc.pushed = false := by
    cases kind <;> exact ⟨_, rfl, rfl⟩
  have hold (i : ℕ) (hi : i ∈ c.pushed) :
      (c.start sender kind message).messageOf i = c.messageOf i := by
    obtain ⟨s, hs, -⟩ := (h.once i).mp hi
    obtain ⟨hlt, -⟩ := List.getElem?_eq_some_iff.mp hs
    rw [Channel.messageOf, hsends, List.getElem?_append_left hlt, Channel.messageOf]
  refine ⟨(List.map_congr_left hold).trans h.order, h.distinct, fun i => (h.once i).trans ?_,
    h.late, h.endless⟩
  rw [hsends]
  constructor
  · rintro ⟨s, hs, hpushed⟩
    obtain ⟨hlt, -⟩ := List.getElem?_eq_some_iff.mp hs
    exact ⟨s, by rwa [List.getElem?_append_left hlt], hpushed⟩
  · rintro ⟨s, hs, hpushed⟩
    rw [getElem?_snoc] at hs
    split at hs
    · obtain rfl := Option.some.inj hs
      simp [hpc] at hpushed
    · exact ⟨s, hs, hpushed⟩

theorem Ordered.step (h : Ordered c) (hc : Counted c) {a : Action τ} (ha : c.Offered a) :
    Ordered (c.step a) := by
  cases a with
  | send sender kind message => exact h.start sender kind message
  | advance i =>
      obtain ⟨s, hs, -⟩ := ha
      simp only [Channel.step, hs]
      exact h.advance hs (advanced hs)
  | clone =>
      simp only [Channel.step, Channel.clone]
      split
      · exact h
      · exact h.receive rfl rfl rfl h.late h.endless
  | dropSender sender => exact h.receive rfl rfl rfl h.late h.endless
  | wakeLast =>
      obtain ⟨waker, woken, hwake⟩ := wake_eq c
      simp only [Channel.step, hwake]
      exact h.receive rfl rfl rfl h.late h.endless
  | poll =>
      have hidle : c.receiver = .idle := ha
      have hlate := h.late
      refine h.receive rfl rfl ?_ ?_ h.endless <;>
        simp_all [Channel.step, Channel.given, Receiver.held, Receiver.past]
  | resize cap =>
      have hidle : c.receiver = .idle := ha
      have hlate := h.late
      simp only [Channel.step, Channel.setCapacity]
      split <;> refine h.receive rfl rfl ?_ ?_ h.endless <;>
        simp_all [Channel.given, Receiver.held, Receiver.past, Unparking.held]
  | close =>
      have hidle : c.receiver = .idle := ha
      have hlate := h.late
      refine h.receive rfl rfl ?_ ?_ h.endless <;>
        simp_all [Channel.step, Channel.given, Receiver.held, Receiver.past]
  | recv => exact h.recv hc

end Order

/-! ## Parked handles -/

/-- There are no more parked handles than messages to come, and a handle that is marked as parked
is in the parked queue, on its way there or about to be notified. -/
structure Parked (c : Channel τ) : Prop where
  bound : c.parkedQueue.length ≤
    c.total SendPc.enlist + c.messageQueue.length + c.receiver.due
  listed : ∀ x, c.isParked x → x ∈ c.parkedQueue.map Cell.value ∨
    (∃ (i : ℕ) (s : Send τ), c.sends[i]? = some s ∧ s.pc = .enqueueing ∧ s.sender = x) ∨
    ∃ why, c.receiver = .notify x why

section Parking

variable {c c' : Channel τ} {i : ℕ} {s : Send τ}

theorem isParked_eq (c : Channel τ) (x : ℕ) :
    c.isParked x = ((c.senders[x]?.map Sender.isParked).getD false) := by
  unfold Channel.isParked
  cases c.senders[x]? <;> rfl

theorem isParked_setMaybeParked (c : Channel τ) (x y : ℕ) (b : Bool) :
    (c.setMaybeParked x b).isParked y = c.isParked y := by
  by_cases hxy : x = y <;> cases hy : c.senders[y]? <;>
    simp [isParked_eq, Channel.setMaybeParked, hxy, hy]

theorem isParked_setParked {c : Channel τ} {x y : ℕ} {b : Bool}
    (h : (c.setParked x b).isParked y) : (x = y ∧ b) ∨ (x ≠ y ∧ c.isParked y) := by
  by_cases hxy : x = y <;> cases hy : c.senders[y]? <;>
    simp_all [isParked_eq, Channel.setParked]

theorem Advanced.length_parkedQueue (a : Advanced c i s c') :
    c'.parkedQueue.length = c.parkedQueue.length + if s.pc = .enqueueing then 1 else 0 := by
  rw [a.parkedQueue]
  cases s.pc <;> simp

theorem Advanced.isParked (a : Advanced c i s c') {x : ℕ} (hx : c'.isParked x) :
    c.isParked x ∨ s.pc = .parking ∧ s.sender = x := by
  have hcongr : ∀ d : Channel τ, c'.senders = d.senders → d.isParked x := by
    intro d hd
    rwa [Channel.isParked, hd] at hx
  have hsenders := a.senders
  cases hpc : s.pc with
  | locking =>
      simp only [hpc] at hsenders
      split at hsenders
      · exact Or.inl (hcongr c hsenders)
      · exact Or.inl (isParked_setMaybeParked c .. ▸ hcongr _ hsenders)
  | flagging isOpen =>
      simp only [hpc] at hsenders
      exact Or.inl (isParked_setMaybeParked c .. ▸ hcongr _ hsenders)
  | parking =>
      simp only [hpc] at hsenders
      rcases isParked_setParked (hcongr _ hsenders) with ⟨heq, -⟩ | ⟨-, hold⟩
      · exact Or.inr ⟨rfl, heq⟩
      · exact Or.inl hold
  | _ => exact Or.inl (hcongr c (by simpa [hpc] using hsenders))

theorem Parked.advance (h : Parked c) (hs : c.sends[i]? = some s) (a : Advanced c i s c') :
    Parked c' := by
  obtain ⟨hreceiver, -⟩ := a.frame
  have hsends (j : ℕ) : c'.sends[j]? =
      if i = j then some { s with pc := c.nextPc s } else c.sends[j]? := by
    rw [a.sends, sends_goto hs]
  constructor
  · have hbound := h.bound
    have htotal := a.total hs SendPc.enlist
    have hweights : (if s.pc = .enqueueing then 1 else 0) + s.pc.enlist ≤
        (c.nextPc s).enlist + if s.pc = .pushing then 1 else 0 := by
      cases hpc : s.pc <;> simp [Channel.nextPc, hpc, SendPc.enlist]
    rw [a.length_parkedQueue, a.length_messageQueue, hreceiver]
    omega
  · intro x hx
    rw [hreceiver]
    rcases a.isParked hx with hold | ⟨hpc, hsender⟩
    · rcases h.listed x hold with hin | ⟨j, t, ht, hpc, hsender⟩ | hnotify
      · refine Or.inl ?_
        rw [a.parkedQueue]
        cases s.pc with
        | linkingTask =>
            simp only [value_link]
            exact hin
        | enqueueing =>
            rw [List.map_append]
            exact List.mem_append_left _ hin
        | _ => exact hin
      · by_cases hij : i = j
        · subst hij
          obtain rfl : s = t := Option.some.inj (hs.symm.trans ht)
          refine Or.inl ?_
          rw [a.parkedQueue, hpc]
          simp [hsender]
        · exact Or.inr (Or.inl ⟨j, t, by rw [hsends, if_neg hij, ht], hpc, hsender⟩)
      · exact Or.inr (Or.inr hnotify)
    · refine Or.inr (Or.inl ⟨i, { s with pc := c.nextPc s }, ?_, ?_, hsender⟩)
      · rw [hsends, if_pos rfl]
      · simp [Channel.nextPc, hpc]

/-- The receiver moves on; what leaves the parked queue is about to be notified. -/
theorem Parked.receive (h : Parked c) (hsends : c'.sends = c.sends)
    (hbound : c'.parkedQueue.length + c.messageQueue.length + c.receiver.due ≤
      c.parkedQueue.length + c'.messageQueue.length + c'.receiver.due ∨ c'.parkedQueue = [])
    (hparked : ∀ x, c'.isParked x → c.isParked x ∧ ∀ why, c.receiver ≠ .notify x why)
    (hlisted : ∀ x ∈ c.parkedQueue.map Cell.value, x ∈ c'.parkedQueue.map Cell.value ∨
      ∃ why, c'.receiver = .notify x why) : Parked c' := by
  have hold := h.bound
  refine ⟨?_, fun x hx => ?_⟩
  · rw [Channel.total, hsends, ← Channel.total]
    rcases hbound with hle | hnil
    · omega
    · simp [hnil]
  · obtain ⟨hx', hnotify⟩ := hparked x hx
    rw [hsends]
    rcases h.listed x hx' with hin | hon | ⟨why, heq⟩
    · rcases hlisted x hin with hin' | hnext
      · exact Or.inl hin'
      · exact Or.inr (Or.inr hnext)
    · exact Or.inr (Or.inl hon)
    · exact absurd heq (hnotify why)

theorem Parked.deliver {caller : Caller} {m : τ} (h : Parked c)
    (hreceiver : c.receiver = .decrement caller m) (word : ℕ) :
    Parked { c.deliver caller m with state := word } := by
  cases caller <;>
    exact h.receive rfl (Or.inl (by simp [Channel.deliver, hreceiver, Receiver.due]))
      (fun x hx => ⟨hx, by simp [hreceiver]⟩) fun x hx => Or.inl hx

theorem Parked.recv (h : Parked c) : Parked c.recv := by
  cases hreceiver : c.receiver with
  | idle => simpa only [Channel.recv, hreceiver] using h
  | gone => simpa only [Channel.recv, hreceiver] using h
  | next caller =>
      simp only [Channel.recv, hreceiver]
      rcases hqueue : c.messageQueue with _ | ⟨⟨m, _ | t⟩, rest⟩
      · refine h.receive rfl ?_ (fun x hx => ⟨hx, by simp [hreceiver]⟩) fun x hx => Or.inl hx
        simp [popSpin, hreceiver, hqueue, Receiver.due]
      · refine h.receive rfl ?_ (fun x hx => ⟨hx, by simp [hreceiver]⟩) fun x hx => Or.inl hx
        simp only [popSpin, hreceiver, hqueue, Receiver.due, List.length_cons]
        omega
      · exact h
  | unpark why =>
      simp only [Channel.recv, hreceiver]
      rcases hqueue : c.parkedQueue with _ | ⟨⟨y, _ | t⟩, rest⟩
      · cases why <;>
          exact h.receive rfl (Or.inr hqueue) (fun x hx => ⟨hx, by simp [hreceiver]⟩)
            fun x hx => Or.inl hx
      · refine h.receive rfl (Or.inl ?_) (fun x hx => ⟨hx, by simp [hreceiver]⟩) fun x hx => ?_
        · cases why <;>
            simp only [popSpin, hreceiver, hqueue, Receiver.due, List.length_cons] <;> omega
        · simp only [hqueue, List.map_cons, List.mem_cons] at hx
          rcases hx with rfl | hx
          · exact Or.inr ⟨why, rfl⟩
          · exact Or.inl hx
      · exact h
  | notify y why =>
      simp only [Channel.recv, hreceiver]
      have hparked : ∀ x, (c.setParked y false).isParked x →
          c.isParked x ∧ ∀ why', c.receiver ≠ .notify x why' := by
        intro x hx
        rcases isParked_setParked hx with ⟨-, hfalse⟩ | ⟨hne, hold⟩
        · cases hfalse
        · refine ⟨hold, fun why' heq => hne ?_⟩
          rw [hreceiver] at heq
          exact (Receiver.notify.inj heq).1
      cases why <;>
        exact h.receive rfl (Or.inl (by
          simp [Channel.notify, Channel.setParked, hreceiver, Receiver.due])) hparked
          fun x hx => Or.inl hx
  | decrement caller m =>
      simp only [Channel.recv, hreceiver]
      exact h.deliver hreceiver _
  | check caller =>
      simp only [Channel.recv, hreceiver]
      cases caller <;> cases hclosed : c.word.isClosed <;>
        refine h.receive ?_ (Or.inl ?_) (fun x hx => ⟨?_, by simp [hreceiver]⟩) ?_ <;>
        simp_all [Channel.empty, Receiver.due, Channel.isParked]
  | register =>
      simp only [Channel.recv, hreceiver]
      exact h.receive rfl (Or.inl (by simp [hreceiver, Receiver.due]))
        (fun x hx => ⟨hx, by simp [hreceiver]⟩) fun x hx => Or.inl hx
  | recheck =>
      simp only [Channel.recv, hreceiver]
      cases hclosed : c.word.isClosed <;>
        exact h.receive rfl (Or.inl (by simp [hreceiver, Receiver.due]))
          (fun x hx => ⟨hx, by simp [hreceiver]⟩) fun x hx => Or.inl hx
  | close =>
      obtain ⟨word, hclosed⟩ := setClosed_eq c
      simp only [Channel.recv, hreceiver, hclosed]
      exact h.receive rfl (Or.inl (by simp [hreceiver, Receiver.due]))
        (fun x hx => ⟨hx, by simp [hreceiver]⟩) fun x hx => Or.inl hx

theorem Parked.start (h : Parked c) (sender : ℕ) (kind : SendKind) (message : τ) :
    Parked (c.start sender kind message) := by
  obtain ⟨t, hsends, hpc⟩ : ∃ t : Send τ,
      (c.start sender kind message).sends = c.sends ++ [t] ∧ t.pc.enlist = 0 := by
    cases kind <;> exact ⟨_, rfl, rfl⟩
  have htotal : (c.start sender kind message).total SendPc.enlist = c.total SendPc.enlist := by
    rw [Channel.total, hsends, Channel.total]
    simp [hpc]
  refine ⟨htotal ▸ h.bound, fun x hx => ?_⟩
  rcases h.listed x hx with hin | ⟨i, s, hs, hon⟩ | hnotify
  · exact Or.inl hin
  · refine Or.inr (Or.inl ⟨i, s, ?_, hon⟩)
    rw [hsends, List.getElem?_append_left (List.getElem?_eq_some_iff.mp hs).1, hs]
  · exact Or.inr (Or.inr hnotify)

theorem Parked.step (h : Parked c) {a : Action τ} (ha : c.Offered a) : Parked (c.step a) := by
  cases a with
  | send sender kind message => exact h.start sender kind message
  | advance i =>
      obtain ⟨s, hs, -⟩ := ha
      simp only [Channel.step, hs]
      exact h.advance hs (advanced hs)
  | clone =>
      simp only [Channel.step, Channel.clone]
      split
      · exact h
      · refine ⟨h.bound, fun x hx => h.listed x ?_⟩
        rw [isParked_eq, getElem?_snoc] at hx
        split at hx
        · simp [Sender.new] at hx
        · rwa [isParked_eq]
  | dropSender sender =>
      refine ⟨h.bound, fun x hx => h.listed x ?_⟩
      rw [isParked_eq] at hx ⊢
      by_cases hxs : sender = x <;> cases hsx : c.senders[x]? <;>
        simp_all [Channel.step, Channel.dropSender]
  | wakeLast =>
      obtain ⟨waker, woken, hwake⟩ := wake_eq c
      simp only [Channel.step, hwake]
      exact ⟨h.bound, h.listed⟩
  | poll =>
      have hidle : c.receiver = .idle := ha
      exact h.receive rfl (Or.inl (by simp [Channel.step, hidle, Receiver.due]))
        (fun x hx => ⟨hx, by simp [hidle]⟩) fun x hx => Or.inl hx
  | resize cap =>
      have hidle : c.receiver = .idle := ha
      simp only [Channel.step, Channel.setCapacity]
      split <;> exact h.receive rfl (Or.inl (by simp [hidle, Receiver.due]))
        (fun x hx => ⟨hx, by simp [hidle]⟩) fun x hx => Or.inl hx
  | close =>
      have hidle : c.receiver = .idle := ha
      exact h.receive rfl (Or.inl (by simp [Channel.step, hidle, Receiver.due]))
        (fun x hx => ⟨hx, by simp [hidle]⟩) fun x hx => Or.inl hx
  | recv => exact h.recv

end Parking

/-! ## Runs -/

structure Sound (c : Channel τ) : Prop where
  counted : Counted c
  ordered : Ordered c
  parked : Parked c

section Running

variable {c : Channel τ} {buffer : ℕ} {as : List (Action τ)}

theorem sound_channel (buffer : ℕ) : Sound (Channel.channel τ buffer) := by
  have hword : (Channel.channel τ buffer).word = ⟨true, 0⟩ :=
    word_of_state (encodeState_open (Nat.zero_le _)).symm (Nat.zero_le _)
  refine ⟨⟨?_, ?_, ?_, ?_, nofun⟩, ⟨rfl, List.nodup_nil, by simp [Channel.channel], Or.inl rfl,
    by simp [Channel.channel]⟩, ⟨Nat.zero_le _, fun x hx => ?_⟩⟩
  · rw [hword]
    exact (encodeState_open (Nat.zero_le _)).symm
  · rw [hword]
    exact Nat.zero_le _
  · rw [hword]
    rfl
  · rw [hword]
    rfl
  · cases x <;> simp [isParked_eq, Channel.channel, Sender.new] at hx

theorem sound_step {a : Action τ} (h : Sound c) (ha : c.Offered a) : Sound (c.step a) :=
  ⟨h.counted.step ha, h.ordered.step h.counted ha, h.parked.step ha⟩

theorem sound_run (h : Sound c) (has : Admissible Channel.step Channel.Offered c as) :
    Sound (run Channel.step c as) :=
  invariant_run (fun _ _ hs ha => sound_step hs ha) h has

theorem total_eq_zero {weight : SendPc → ℕ} (h : c.total weight = 0) {i : ℕ} {s : Send τ}
    (hs : c.sends[i]? = some s) : weight s.pc = 0 :=
  List.sum_eq_zero_iff.mp h _ (List.mem_map.mpr ⟨s, List.mem_of_getElem? hs, rfl⟩)

/-- A channel without messages has no parked handle, but the one that is being notified. -/
theorem Sound.unparked (h : Sound c) (hempty : c.word.numMessages = 0) :
    c.total SendPc.charge = 0 ∧ c.messageQueue = [] ∧ c.receiver.held = [] ∧
      c.parkedQueue = [] ∧ ∀ x, c.isParked x → ∃ why, c.receiver = .notify x why := by
  have hcount := h.counted.count
  have hcharge : c.total SendPc.charge = 0 := by omega
  have hqueue : c.messageQueue = [] := List.length_eq_zero_iff.mp (by omega)
  have hheld : c.receiver.held = [] := List.length_eq_zero_iff.mp (by omega)
  have henlist : c.total SendPc.enlist = 0 := by
    refine List.sum_eq_zero_iff.mpr fun n hn => ?_
    obtain ⟨s, hs, rfl⟩ := List.mem_map.mp hn
    have hzero := List.sum_eq_zero_iff.mp hcharge _ (List.mem_map.mpr ⟨s, hs, rfl⟩)
    cases hpc : s.pc <;> simp_all [SendPc.charge, SendPc.enlist]
  have hdue : c.receiver.due = 0 := by
    unfold Receiver.due
    split
    · simp_all [Receiver.held, Unparking.held]
    · rfl
  have hbound := h.parked.bound
  have hparked : c.parkedQueue = [] :=
    List.length_eq_zero_iff.mp (by simp only [hqueue, List.length_nil] at hbound; omega)
  refine ⟨hcharge, hqueue, hheld, hparked, fun x hx => ?_⟩
  rcases h.parked.listed x hx with hin | ⟨i, s, hs, hpc, -⟩ | hnotify
  · simp [hparked] at hin
  · have hzero := total_eq_zero hcharge hs
    simp [hpc, SendPc.charge] at hzero
  · exact hnotify

theorem wake_frame (c : Channel τ) : c.wake.receiver = c.receiver ∧ c.wake.pushed = c.pushed ∧
    c.wake.sends = c.sends := by
  obtain ⟨waker, woken, hwake⟩ := wake_eq c
  rw [hwake]
  exact ⟨rfl, rfl, rfl⟩

theorem pushed_recv (c : Channel τ) : c.recv.pushed = c.pushed := by
  obtain ⟨word, hclosed⟩ := setClosed_eq c
  unfold Channel.recv
  cases c.receiver with
  | next caller => dsimp only; split <;> rfl
  | unpark why =>
      dsimp only
      split
      · rfl
      · cases why <;> rfl
      · rfl
  | notify x why => cases why <;> rfl
  | decrement caller m => cases caller <;> rfl
  | check caller => cases caller <;> cases hword : c.word.isClosed <;> simp [Channel.empty, hword]
  | close => simp only [hclosed]
  | _ => rfl

/-- Only the send whose message is pushed adds to the history, at its end. -/
theorem pushed_step (c : Channel τ) (a : Action τ) : (c.step a).pushed = c.pushed ∨
    ∃ i s, c.sends[i]? = some s ∧ s.pc = .pushing ∧ (c.step a).pushed = c.pushed ++ [i] := by
  cases a with
  | advance i =>
      cases hs : c.sends[i]? with
      | none => exact Or.inl (by simp only [Channel.step, hs])
      | some s =>
          have hpushed := (advanced hs).pushed
          simp only [Channel.step, hs]
          split at hpushed
          · exact Or.inr ⟨i, s, hs, ‹_›, hpushed⟩
          · exact Or.inl hpushed
  | clone =>
      refine Or.inl ?_
      simp only [Channel.step, Channel.clone]
      split <;> rfl
  | wakeLast => exact Or.inl (wake_frame c).2.1
  | recv => exact Or.inl (pushed_recv c)
  | _ => exact Or.inl rfl

theorem pushed_run (c : Channel τ) (as : List (Action τ)) :
    c.pushed <+: (run Channel.step c as).pushed := by
  refine invariant_run_of_mem (I := fun d : Channel τ => c.pushed <+: d.pushed) ?_
    (List.prefix_refl _)
  intro d a _ ih
  rcases pushed_step d a with heq | ⟨i, s, -, -, heq⟩
  · rwa [heq]
  · rw [heq]
    exact ih.trans (List.prefix_append _ _)

/-- The send has neither been counted nor given its answer, or was told that the channel is
closed. -/
def SendPc.early : SendPc → Bool
  | .polling | .locking | .incrementing | .returned .closed => true
  | _ => false

/-- The message of the send is in the queue, or the send has its answer. -/
def SendPc.through : SendPc → Bool
  | .linking | .signalling | .returned _ => true
  | _ => false

/-- What a dropped receiver leaves behind: the sends that have got through, and those that will be
told that the channel is closed. -/
structure Abandoned (through : ℕ → Prop) (c : Channel τ) : Prop where
  sound : Sound c
  gone : c.receiver = .gone
  sends : ∀ i s, c.sends[i]? = some s → s.pc.early ∨ (through i ∧ s.pc.through)

theorem Abandoned.notPushing {through : ℕ → Prop} (h : Abandoned through c) {i : ℕ} {s : Send τ}
    (hs : c.sends[i]? = some s) : s.pc ≠ .pushing := by
  intro hpc
  rcases h.sends i s hs with hearly | ⟨-, hthrough⟩
  · simp [hpc, SendPc.early] at hearly
  · simp [hpc, SendPc.through] at hthrough

theorem Sound.abandoned (h : Sound c) (hgone : c.receiver = .gone) :
    Abandoned (fun i => ∃ s, c.sends[i]? = some s ∧ s.pc.through) c := by
  obtain ⟨hcharge, -⟩ := h.unparked (h.counted.gone hgone)
  refine ⟨h, hgone, fun i s hs => ?_⟩
  have hzero := total_eq_zero hcharge hs
  have hthrough (hpc : s.pc.through) : s.pc.early = true ∨
      (∃ s, c.sends[i]? = some s ∧ s.pc.through) ∧ s.pc.through := Or.inr ⟨⟨s, hs, hpc⟩, hpc⟩
  cases hpc : s.pc with
  | linking => exact hpc ▸ hthrough (by rw [hpc]; rfl)
  | signalling => exact hpc ▸ hthrough (by rw [hpc]; rfl)
  | returned outcome => exact hpc ▸ hthrough (by rw [hpc]; rfl)
  | polling => exact Or.inl rfl
  | locking => exact Or.inl rfl
  | incrementing => exact Or.inl rfl
  | _ => simp [hpc, SendPc.charge] at hzero

theorem Abandoned.nextPc {through : ℕ → Prop} (h : Abandoned through c) {i : ℕ} {s : Send τ}
    (hs : c.sends[i]? = some s) :
    (c.nextPc s).early ∨ (through i ∧ (c.nextPc s).through) := by
  have hopen : c.word.isOpen = false := by simp [h.sound.counted.isOpen, h.gone, Receiver.past]
  have hfree : c.isParked s.sender = false := by
    by_contra hparked
    obtain ⟨-, -, -, -, hnotify⟩ := h.sound.unparked (h.sound.counted.gone h.gone)
    obtain ⟨why, hwhy⟩ := hnotify s.sender (by simpa using hparked)
    simp [h.gone] at hwhy
  rcases h.sends i s hs with hearly | ⟨hthrough, hpc⟩
  · refine Or.inl ?_
    cases hpc : s.pc with
    | polling => simp only [Channel.nextPc, hpc]; split <;> rfl
    | locking => simp [Channel.nextPc, hpc, hfree, SendPc.early]
    | incrementing => simp [Channel.nextPc, hpc, hopen, SendPc.early]
    | _ => simp_all [Channel.nextPc, SendPc.early]
  · cases hpc' : s.pc with
    | returned outcome => exact Or.inr ⟨hthrough, by simp [Channel.nextPc, hpc', SendPc.through]⟩
    | _ => simp_all [Channel.nextPc, SendPc.through]

theorem Abandoned.step {through : ℕ → Prop} (h : Abandoned through c) {a : Action τ}
    (ha : c.Offered a) : Abandoned through (c.step a) := by
  have hsound := sound_step h.sound ha
  have hgone := h.gone
  cases a with
  | send sender kind message =>
      refine ⟨hsound, hgone, fun i s hs => ?_⟩
      obtain ⟨t, hsends, ht⟩ : ∃ t : Send τ,
          (c.start sender kind message).sends = c.sends ++ [t] ∧ t.pc.early := by
        cases kind <;> exact ⟨_, rfl, rfl⟩
      change (c.start sender kind message).sends[i]? = some s at hs
      rw [hsends, getElem?_snoc] at hs
      split at hs
      · obtain rfl := Option.some.inj hs
        exact Or.inl ht
      · exact h.sends i s hs
  | advance i =>
      obtain ⟨s, hs, -⟩ := ha
      have a := advanced hs
      simp only [Channel.step, hs] at hsound ⊢
      refine ⟨hsound, a.frame.1.trans hgone, fun j t ht => ?_⟩
      rw [a.sends, sends_goto hs] at ht
      split at ht
      · obtain rfl := Option.some.inj ht
        subst j
        exact h.nextPc hs
      · exact h.sends j t ht
  | clone =>
      refine ⟨hsound, ?_, ?_⟩ <;> simp only [Channel.step, Channel.clone] <;> split
      · exact hgone
      · exact hgone
      · exact h.sends
      · exact h.sends
  | dropSender sender => exact ⟨hsound, hgone, h.sends⟩
  | wakeLast =>
      obtain ⟨hreceiver, -, hsends⟩ := wake_frame c
      refine ⟨hsound, hreceiver.trans hgone, ?_⟩
      simp only [Channel.step, hsends]
      exact h.sends
  | poll => exact absurd (hgone.symm.trans ha) (by simp)
  | resize cap => exact absurd (hgone.symm.trans ha) (by simp)
  | close => exact absurd (hgone.symm.trans ha) (by simp)
  | recv => exact absurd hgone ha.2

/-- The messages leave the channel in the order of their pushes, each once: what the receiver took
out, what it holds and what waits are together the messages that were pushed, in that order. A later
push comes after all earlier ones, `poll_next` never ends the stream, and a dropped receiver has
taken out all that was ever pushed. -/
theorem messages_once_in_push_order (buffer : ℕ) (before after : List (Action τ))
    (has : Admissible Channel.step Channel.Offered (Channel.channel τ buffer)
      (before ++ after)) :
    let c := run Channel.step (Channel.channel τ buffer) before
    let d := run Channel.step c after
    Ordered d ∧ c.pushed <+: d.pushed ∧ (c.receiver = .gone →
      d.pushed = c.pushed ∧ d.pushed.map d.messageOf = d.given.map some) := by
  intro c d
  obtain ⟨hbefore, hafter⟩ := admissible_append.mp has
  have hc := sound_run (sound_channel buffer) hbefore
  have hd := sound_run hc hafter
  refine ⟨hd.ordered, pushed_run c after, fun hgone => ?_⟩
  have habandoned := hc.abandoned hgone
  set through : ℕ → Prop := fun i => ∃ s, c.sends[i]? = some s ∧ s.pc.through
  have hrun : Abandoned through d ∧ d.pushed = c.pushed := by
    refine invariant_run (I := fun e : Channel τ => Abandoned through e ∧ e.pushed = c.pushed)
      ?_ ⟨habandoned, rfl⟩ hafter
    rintro e a ⟨he, heq⟩ ha
    refine ⟨he.step ha, ?_⟩
    rcases pushed_step e a with hsame | ⟨i, s, hs, hpc, -⟩
    · rw [hsame, heq]
    · exact absurd hpc (he.notPushing hs)
  refine ⟨hrun.2, ?_⟩
  obtain ⟨-, hqueue, hheld, -⟩ := hd.unparked (hd.counted.gone hrun.1.gone)
  have horder := hd.ordered.order
  rw [hqueue, hheld, List.append_nil, List.map_nil, List.append_nil] at horder
  exact horder

/-- A handle is parked with its message, and the receiver is dropped. -/
def parkedThenDropped : List (Action ℕ) :=
  .send 0 .send 7 :: List.replicate 11 (.advance 0) ++ .close :: List.replicate 9 .recv

/-- A send that comes too late. -/
def lateSend : List (Action ℕ) := .send 0 .send 8 :: List.replicate 3 (.advance 1)

theorem messages_once_in_push_order_dropped :
    let c := run Channel.step (Channel.channel ℕ 1) parkedThenDropped
    let d := run Channel.step c lateSend
    d.pushed = c.pushed ∧ d.pushed.map d.messageOf = d.given.map some ∧ d.given = [7] := by
  intro c d
  have h := messages_once_in_push_order 1 parkedThenDropped lateSend (by decide +kernel)
  obtain ⟨hpushed, hgiven⟩ := h.2.2 (by decide +kernel)
  exact ⟨hpushed, hgiven, by decide +kernel⟩

/-- A channel without messages has no parked handle but the one that is being notified, and after
the receiver's drop every send that had not got through is told that the channel is closed, never
that it is full. -/
theorem no_sender_stays_parked (buffer : ℕ) (before after : List (Action τ))
    (has : Admissible Channel.step Channel.Offered (Channel.channel τ buffer)
      (before ++ after)) :
    let c := run Channel.step (Channel.channel τ buffer) before
    let d := run Channel.step c after
    (d.word.numMessages = 0 → d.parkedQueue = [] ∧
      ∀ x, d.isParked x → ∃ why, d.receiver = .notify x why) ∧
    (c.receiver = .gone → ∀ (i : ℕ) (s : Send τ) (outcome : Outcome), d.sends[i]? = some s →
      s.pc = .returned outcome → (∀ t : Send τ, c.sends[i]? = some t → ¬t.pc.through) →
        outcome = .closed) := by
  intro c d
  obtain ⟨hbefore, hafter⟩ := admissible_append.mp has
  have hc := sound_run (sound_channel buffer) hbefore
  have hd := sound_run hc hafter
  refine ⟨fun hempty => ?_, fun hgone i s outcome hs hpc hnot => ?_⟩
  · obtain ⟨-, -, -, hparked, hnotify⟩ := hd.unparked hempty
    exact ⟨hparked, hnotify⟩
  · have habandoned := invariant_run (I := Abandoned _) (fun _ _ he ha => he.step ha)
      (hc.abandoned hgone) hafter
    rcases habandoned.sends i s hs with hearly | ⟨⟨t, ht, hthrough⟩, -⟩
    · rw [hpc] at hearly
      cases outcome <;> simp [SendPc.early] at hearly ⊢
    · exact absurd hthrough (hnot t ht)

theorem no_sender_stays_parked_dropped :
    let c := run Channel.step (Channel.channel ℕ 1) parkedThenDropped
    let d := run Channel.step c lateSend
    d.parkedQueue = [] ∧ ∀ outcome, (d.sends[1]?.map Send.pc = some (.returned outcome) →
      outcome = .closed) := by
  intro c d
  have h := no_sender_stays_parked 1 parkedThenDropped lateSend (by decide +kernel)
  refine ⟨(h.1 (by decide +kernel)).1, fun outcome houtcome => ?_⟩
  obtain ⟨s, hs, hpc⟩ := Option.map_eq_some_iff.mp houtcome
  exact h.2 (by decide +kernel) 1 s outcome hs hpc (by decide +kernel)

end Running

end ActixPura.MailboxChannel
