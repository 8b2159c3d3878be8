import ActixPura.MailboxDelivery

/-!
# The capacity of a mailbox

A mailbox takes `buffer` messages from whoever comes first, and one more from each handle. The
guarantee needs sends that park, one at a time on a handle, and a capacity that is not changed;
`do_send` and an unparked `try_send` ignore the limit. What bounds the number of messages is that a
send which meets a full mailbox leaves its handle in the parked queue, where no handle stands twice,
because a handle that stands there is refused before it can increment the state again.
-/

namespace ActixPura.MailboxChannel

open Runs MpscQueue

variable {τ : Type}

/-- Sends that park, one at a time on a handle, and no change of the capacity. -/
def Channel.OfferedParking (c : Channel τ) (a : Action τ) : Prop :=
  c.Offered a ∧ match a with
    | .send sender kind _ => kind.parks ∧ ∀ s ∈ c.sends, s.sender = sender → s.pc.Returned
    | .resize _ => False
    | _ => True

/-- The send is going to park. -/
def SendPc.parksSoon (buffer : ℕ) : SendPc → Bool
  | .measuring n => decide (buffer ≤ n)
  | .parking | .enqueueing => true
  | _ => false

/-- The send has passed the test for a parked handle and has not put the handle into the queue. -/
def SendPc.climbing : SendPc → Bool
  | .incrementing | .measuring _ | .parking | .enqueueing => true
  | _ => false

/-- The send is going to note that its handle may be parked. -/
def SendPc.flags : SendPc → Bool
  | .linkingTask | .confirming => true
  | .flagging isOpen => isOpen
  | _ => false

/-- The handle that was taken out of the parked queue and not yet notified. -/
def Receiver.notified : Receiver τ → List ℕ
  | .notify x _ => [x]
  | _ => []

/-- The handles that stand in the parked queue or were just taken out of it. -/
def Channel.marked (c : Channel τ) : List ℕ :=
  c.receiver.notified ++ c.parkedQueue.map Cell.value

/-- A handle was taken out for the message in hand, or there was none. -/
def Receiver.settled : Receiver τ → ℕ
  | .notify _ (.message _ _) | .decrement _ _ => 1
  | _ => 0

def Channel.aboutToPark (c : Channel τ) : List ℕ :=
  (c.sends.filter fun s => s.pc.parksSoon c.buffer).map Send.sender

/-- The gate of the mailbox while it is open: a marked handle is flagged as parked, so that no send
on it comes as far as the increment. -/
structure Gated (c : Channel τ) : Prop where
  single : ∀ (i j : ℕ) (s t : Send τ), c.sends[i]? = some s → c.sends[j]? = some t →
    ¬s.pc.Returned → ¬t.pc.Returned → s.sender = t.sender → i = j
  parks : ∀ (i : ℕ) (s : Send τ), c.sends[i]? = some s → s.kind.parks
  known : ∀ (i : ℕ) (s : Send τ), c.sends[i]? = some s → s.sender < c.senders.length
  distinct : c.marked.Nodup
  marked_known : ∀ x ∈ c.marked, x < c.senders.length
  marked_parked : ∀ x ∈ c.marked, c.isParked x
  marked_free : ∀ x ∈ c.marked, ∀ (i : ℕ) (s : Send τ), c.sends[i]? = some s → s.sender = x →
    s.pc.climbing = false
  marked_flag : ∀ x ∈ c.marked, c.maybeParked x ∨
    ∃ (i : ℕ) (s : Send τ), c.sends[i]? = some s ∧ s.sender = x ∧ s.pc.flags
  entering : ∀ (i : ℕ) (s : Send τ), c.sends[i]? = some s → s.pc = .enqueueing →
    c.isParked s.sender
  flagging : ∀ (i : ℕ) (s : Send τ) (isOpen : Bool), c.sends[i]? = some s →
    s.pc = .flagging isOpen → isOpen
  bound : c.word.numMessages ≤
    c.buffer - 1 + c.aboutToPark.length + c.parkedQueue.length + c.receiver.settled
  constant : c.receiver ≠ .unpark .raising ∧ ∀ x, c.receiver ≠ .notify x .raising

section Capacity

variable {c c' : Channel τ} {i j : ℕ} {s t : Send τ}

theorem SendPc.climbing_not_returned {pc : SendPc} (h : pc.climbing) : ¬pc.Returned := by
  cases pc <;> simp_all [SendPc.climbing, SendPc.Returned]

theorem SendPc.flags_not_returned {pc : SendPc} (h : pc.flags) : ¬pc.Returned := by
  cases pc <;> simp_all [SendPc.flags, SendPc.Returned]

theorem SendPc.parksSoon_climbing {pc : SendPc} {buffer : ℕ} (h : pc.parksSoon buffer) :
    pc.climbing := by
  cases pc <;> simp_all [SendPc.climbing, SendPc.parksSoon]

/-- No two entries that satisfy `p` agree under `f`. -/
theorem nodup_map_filter {α β : Type*} {p : α → Bool} {f : α → β} {xs : List α}
    (h : ∀ (i j : ℕ) (x y : α), xs[i]? = some x → xs[j]? = some y → p x → p y → f x = f y → i = j) :
    ((xs.filter p).map f).Nodup := by
  induction xs with
  | nil => simp
  | cons a as ih =>
      have hrest := ih fun i j x y hx hy hpx hpy hf =>
        Nat.succ.inj (h (i + 1) (j + 1) x y (by simpa) (by simpa) hpx hpy hf)
      rw [List.filter_cons]
      split
      · refine List.nodup_cons.mpr ⟨fun hmem => ?_, hrest⟩
        obtain ⟨y, hy, hf⟩ := List.mem_map.mp hmem
        obtain ⟨hin, hpy⟩ := List.mem_filter.mp hy
        obtain ⟨j, hj⟩ := List.mem_iff_getElem?.mp hin
        exact absurd (h 0 (j + 1) a y rfl (by simpa) ‹_› hpy hf.symm) (by simp)
      · exact hrest

/-- The handles in the way of a message are all different, so that there are no more of them than
handles. -/
theorem Gated.length_le (h : Gated c) :
    c.aboutToPark.length + c.marked.length ≤ c.senders.length := by
  have hnodup : (c.aboutToPark ++ c.marked).Nodup := by
    refine List.nodup_append.mpr ⟨nodup_map_filter ?_, h.distinct, ?_⟩
    · intro i j s t hs ht hps hpt
      exact h.single i j s t hs ht
        (SendPc.climbing_not_returned (SendPc.parksSoon_climbing hps))
        (SendPc.climbing_not_returned (SendPc.parksSoon_climbing hpt))
    · rintro x hx y hy rfl
      obtain ⟨s, hs, rfl⟩ := List.mem_map.mp hx
      obtain ⟨hin, hsoon⟩ := List.mem_filter.mp hs
      obtain ⟨i, hi⟩ := List.mem_iff_getElem?.mp hin
      have hfree := h.marked_free _ hy i s hi rfl
      simp [SendPc.parksSoon_climbing hsoon] at hfree
  have hsub : c.aboutToPark ++ c.marked ⊆ List.range c.senders.length := by
    intro x hx
    rw [List.mem_range]
    rcases List.mem_append.mp hx with hx | hx
    · obtain ⟨s, hs, rfl⟩ := List.mem_map.mp hx
      obtain ⟨i, hi⟩ := List.mem_iff_getElem?.mp (List.mem_filter.mp hs).1
      exact h.known i s hi
    · exact h.marked_known x hx
  have hle := (hnodup.subperm hsub).length_le
  rwa [List.length_append, List.length_range] at hle

/-- While the mailbox is open it holds at most one message more for each handle than its buffer. -/
theorem Gated.capacity (h : Gated c) (hbuffer : 0 < c.buffer) :
    c.word.numMessages ≤ c.buffer + c.senders.length := by
  have hbound := h.bound
  have hle := h.length_le
  have hmarked : c.marked.length = c.receiver.notified.length + c.parkedQueue.length := by
    simp [Channel.marked]
  have hsettled : c.receiver.settled ≤ 1 := by
    unfold Receiver.settled
    split <;> omega
  omega

/-! ## The gate holds -/

theorem maybeParked_eq (c : Channel τ) (x : ℕ) :
    c.maybeParked x = ((c.senders[x]?.map Sender.maybeParked).getD false) := by
  unfold Channel.maybeParked
  cases c.senders[x]? <;> rfl

theorem length_senders (a : Advanced c i s c') : c'.senders.length = c.senders.length := by
  rw [a.senders]
  cases s.pc with
  | locking => dsimp only; split <;> simp [Channel.setMaybeParked]
  | _ => simp [Channel.setMaybeParked, Channel.setParked]

/-- No access of a send takes a parked mark away, and `park` sets it. -/
theorem Advanced.isParked_of (a : Advanced c i s c') {x : ℕ} (hx : x < c.senders.length)
    (h : c.isParked x ∨ (s.pc = .parking ∧ s.sender = x)) : c'.isParked x := by
  have hsenders := a.senders
  have hparked : c'.isParked x = (c'.senders[x]?.map Sender.isParked).getD false := isParked_eq c' x
  rw [isParked_eq c x, List.getElem?_eq_getElem hx] at h
  rw [hparked, hsenders]
  cases hpc : s.pc with
  | locking =>
      dsimp only
      split <;> by_cases hsx : s.sender = x <;>
        simp_all [Channel.setMaybeParked]
  | parking =>
      by_cases hsx : s.sender = x <;> simp_all [Channel.setParked]
  | flagging isOpen =>
      by_cases hsx : s.sender = x <;> simp_all [Channel.setMaybeParked]
  | _ => simp_all

/-- The flag of a handle is kept, unless its own send finds the handle free or the mailbox
closed. -/
theorem Advanced.maybeParked_of (a : Advanced c i s c') {x : ℕ} (hx : x < c.senders.length)
    (hlocking : s.pc = .locking → s.sender = x → c.isParked x)
    (h : (c.maybeParked x ∧ ∀ isOpen, s.pc = .flagging isOpen → isOpen = true) ∨
      (s.pc = .flagging true ∧ s.sender = x)) : c'.maybeParked x := by
  have hsenders := a.senders
  rw [maybeParked_eq c x, List.getElem?_eq_getElem hx] at h
  rw [maybeParked_eq, hsenders]
  cases hpc : s.pc with
  | locking =>
      dsimp only
      by_cases hsx : s.sender = x
      · simp_all
      · split <;> simp_all [Channel.setMaybeParked]
  | parking =>
      by_cases hsx : s.sender = x <;> simp_all [Channel.setParked]
  | flagging isOpen =>
      have hopen : isOpen = true := by
        rcases h with ⟨-, hflag⟩ | ⟨hflag, -⟩
        · exact hflag isOpen hpc
        · exact SendPc.flagging.inj (hpc.symm.trans hflag)
      by_cases hsx : s.sender = x <;> simp_all [Channel.setMaybeParked]
  | _ => simp_all

/-- Where the sends of the new state come from. -/
theorem Advanced.origin (a : Advanced c i s c') (hs : c.sends[i]? = some s) {t' : Send τ}
    (ht' : c'.sends[j]? = some t') : ∃ t, c.sends[j]? = some t ∧ t'.sender = t.sender ∧
      t'.kind = t.kind ∧ ((j ≠ i ∧ t' = t) ∨ (j = i ∧ t = s ∧ t'.pc = c.nextPc s)) := by
  rw [a.sends, sends_goto hs] at ht'
  split at ht'
  · subst j
    obtain rfl := Option.some.inj ht'
    exact ⟨s, hs, rfl, rfl, Or.inr ⟨rfl, rfl, rfl⟩⟩
  · exact ⟨t', ht', rfl, rfl, Or.inl ⟨fun h => ‹¬i = j› h.symm, rfl⟩⟩

theorem nextPc_returned (h : s.pc.Returned) : (c.nextPc s).Returned := by
  cases hpc : s.pc <;> simp_all [SendPc.Returned, Channel.nextPc]

theorem marked_advance (a : Advanced c i s c') : c'.marked =
    if s.pc = .enqueueing then c.marked ++ [s.sender] else c.marked := by
  rw [Channel.marked, a.frame.1, a.parkedQueue]
  cases s.pc with
  | linkingTask => simp only [value_link, reduceCtorEq, if_false, Channel.marked]
  | _ => simp [Channel.marked]

theorem length_aboutToPark (c : Channel τ) : c.aboutToPark.length =
    c.total fun pc => if pc.parksSoon c.buffer then 1 else 0 := by
  rw [Channel.aboutToPark, Channel.total, List.length_map]
  induction c.sends with
  | nil => rfl
  | cons s rest ih =>
      rw [List.filter_cons, List.map_cons, List.sum_cons, ← ih]
      split <;> simp_all [Nat.add_comm]

theorem aboutToPark_advance (a : Advanced c i s c') (hs : c.sends[i]? = some s) :
    c'.aboutToPark.length + (if s.pc.parksSoon c.buffer then 1 else 0) =
      c.aboutToPark.length + if (c.nextPc s).parksSoon c.buffer then 1 else 0 := by
  obtain ⟨-, -, -, -, hbuffer, -⟩ := a.frame
  rw [length_aboutToPark, length_aboutToPark, hbuffer]
  exact a.total hs _

/-! A send moves on, one field of the gate after the other. -/

theorem Gated.single_advance (h : Gated c) (a : Advanced c i s c') (hs : c.sends[i]? = some s)
    (j k : ℕ) (t' u' : Send τ) (ht' : c'.sends[j]? = some t') (hu' : c'.sends[k]? = some u')
    (hrt : ¬t'.pc.Returned) (hru : ¬u'.pc.Returned) (hsender : t'.sender = u'.sender) : j = k := by
  obtain ⟨t, ht, hts, -, hpt⟩ := a.origin hs ht'
  obtain ⟨u, hu, hus, -, hpu⟩ := a.origin hs hu'
  refine h.single j k t u ht hu ?_ ?_ (hts ▸ hus ▸ hsender)
  · rcases hpt with ⟨-, rfl⟩ | ⟨-, rfl, hpc⟩
    · exact hrt
    · exact fun hret => hrt (hpc ▸ nextPc_returned hret)
  · rcases hpu with ⟨-, rfl⟩ | ⟨-, rfl, hpc⟩
    · exact hru
    · exact fun hret => hru (hpc ▸ nextPc_returned hret)

/-- A marked handle keeps its own send from the increment. -/
theorem Gated.climbing_nextPc (h : Gated c) (hs : c.sends[i]? = some s)
    (hmem : s.sender ∈ c.marked) : (c.nextPc s).climbing = false := by
  have hfree := h.marked_free _ hmem i s hs rfl
  have hparked := h.marked_parked _ hmem
  cases hpc : s.pc with
  | polling =>
      have hmaybe : c.maybeParked s.sender = true := by
        refine (h.marked_flag _ hmem).resolve_right ?_
        rintro ⟨j, t, ht, hsender, hflags⟩
        have hji := h.single j i t s ht hs (SendPc.flags_not_returned hflags)
          (by simp [hpc, SendPc.Returned]) hsender
        subst j
        obtain rfl := Option.some.inj (ht.symm.trans hs)
        simp [hpc, SendPc.flags] at hflags
      simp [Channel.nextPc, hpc, hmaybe, SendPc.climbing]
  | locking => simp [Channel.nextPc, hpc, hparked, SendPc.climbing]
  | _ => simp_all [Channel.nextPc, SendPc.climbing]

/-- A new mark is the handle of the send that has entered the queue. -/
theorem Advanced.mem_marked (a : Advanced c i s c') {x : ℕ} (hx : x ∈ c'.marked) :
    x ∈ c.marked ∨ (s.pc = .enqueueing ∧ x = s.sender) := by
  rw [marked_advance a] at hx
  split at hx
  · rcases List.mem_append.mp hx with hold | hnew
    · exact Or.inl hold
    · exact Or.inr ⟨‹_›, List.mem_singleton.mp hnew⟩
  · exact Or.inl hx

theorem Gated.marked_lt (h : Gated c) (a : Advanced c i s c') (hs : c.sends[i]? = some s) {x : ℕ}
    (hx : x ∈ c'.marked) : x < c.senders.length := by
  rcases a.mem_marked hx with hold | ⟨-, rfl⟩
  · exact h.marked_known x hold
  · exact h.known i s hs

theorem Gated.distinct_advance (h : Gated c) (a : Advanced c i s c') (hs : c.sends[i]? = some s) :
    c'.marked.Nodup := by
  rw [marked_advance a]
  split
  · refine List.nodup_append.mpr ⟨h.distinct, List.nodup_singleton _, ?_⟩
    rintro x hx y hy rfl
    obtain rfl := List.mem_singleton.mp hy
    have hfree := h.marked_free _ hx i s hs rfl
    simp [‹s.pc = .enqueueing›, SendPc.climbing] at hfree
  · exact h.distinct

theorem Gated.parked_advance (h : Gated c) (a : Advanced c i s c') (hs : c.sends[i]? = some s)
    (x : ℕ) (hx : x ∈ c'.marked) : c'.isParked x := by
  refine a.isParked_of (h.marked_lt a hs hx) (Or.inl ?_)
  rcases a.mem_marked hx with hold | ⟨hpc, rfl⟩
  · exact h.marked_parked x hold
  · exact h.entering i s hs hpc

theorem Gated.free_advance (h : Gated c) (a : Advanced c i s c') (hs : c.sends[i]? = some s)
    (x : ℕ) (hx : x ∈ c'.marked) (j : ℕ) (t' : Send τ) (ht' : c'.sends[j]? = some t')
    (hsender : t'.sender = x) : t'.pc.climbing = false := by
  obtain ⟨t, ht, hts, -, hpt⟩ := a.origin hs ht'
  rcases a.mem_marked hx with hold | ⟨hpc, rfl⟩
  · rcases hpt with ⟨-, rfl⟩ | ⟨rfl, rfl, hpc⟩
    · exact h.marked_free x hold j t' ht hsender
    · rw [hpc]
      exact h.climbing_nextPc hs (by rwa [← hts, hsender])
  · rcases hpt with ⟨hne, rfl⟩ | ⟨rfl, rfl, hpc'⟩
    · by_contra hclimbing
      have hreturned := SendPc.climbing_not_returned (Bool.eq_true_of_not_eq_false hclimbing)
      exact hne (h.single j i t' s ht hs hreturned (by simp [hpc, SendPc.Returned]) hsender)
    · simp [hpc', Channel.nextPc, hpc, SendPc.climbing]

theorem Gated.flag_advance (h : Gated c) (hopen : c.word.isOpen) (a : Advanced c i s c')
    (hs : c.sends[i]? = some s) (x : ℕ) (hx : x ∈ c'.marked) : c'.maybeParked x ∨
      ∃ (j : ℕ) (t : Send τ), c'.sends[j]? = some t ∧ t.sender = x ∧ t.pc.flags := by
  have hlt := h.marked_lt a hs hx
  have hmoved (k : ℕ) : c'.sends[k]? =
      if i = k then some { s with pc := c.nextPc s } else c.sends[k]? := by
    rw [a.sends, sends_goto hs]
  have hnext (hsender : s.sender = x) (hflags : (c.nextPc s).flags) : ∃ (j : ℕ) (t : Send τ),
      c'.sends[j]? = some t ∧ t.sender = x ∧ t.pc.flags :=
    ⟨i, { s with pc := c.nextPc s }, by rw [hmoved, if_pos rfl], hsender, hflags⟩
  rcases a.mem_marked hx with hold | ⟨hpc, rfl⟩
  · rcases h.marked_flag x hold with hmaybe | ⟨k, u, hu, hsender, hflags⟩
    · exact Or.inl (a.maybeParked_of hlt (fun _ _ => h.marked_parked x hold)
        (Or.inl ⟨hmaybe, fun isOpen hpc => h.flagging i s isOpen hs hpc⟩))
    · by_cases hik : i = k
      · subst hik
        obtain rfl := Option.some.inj (hs.symm.trans hu)
        cases hpc : s.pc with
        | linkingTask => exact Or.inr (hnext hsender (by simp [Channel.nextPc, hpc, SendPc.flags]))
        | confirming =>
            exact Or.inr (hnext hsender (by simp [Channel.nextPc, hpc, hopen, SendPc.flags]))
        | flagging isOpen =>
            have htrue : isOpen = true := by simpa [hpc, SendPc.flags] using hflags
            exact Or.inl (a.maybeParked_of hlt (by simp [hpc]) (Or.inr ⟨htrue ▸ hpc, hsender⟩))
        | _ => simp [hpc, SendPc.flags] at hflags
      · exact Or.inr ⟨k, u, by rw [hmoved, if_neg hik, hu], hsender, hflags⟩
  · exact Or.inr (hnext rfl (by simp [Channel.nextPc, hpc, SendPc.flags]))

theorem Gated.entering_advance (h : Gated c) (a : Advanced c i s c') (hs : c.sends[i]? = some s)
    (j : ℕ) (t' : Send τ) (ht' : c'.sends[j]? = some t') (hpc' : t'.pc = .enqueueing) :
    c'.isParked t'.sender := by
  obtain ⟨t, ht, hts, -, hpt⟩ := a.origin hs ht'
  have hlt : t'.sender < c.senders.length := hts ▸ h.known j t ht
  refine a.isParked_of hlt ?_
  rcases hpt with ⟨-, rfl⟩ | ⟨rfl, rfl, hpc⟩
  · exact Or.inl (h.entering j t' ht hpc')
  · rw [hpc] at hpc'
    refine Or.inr ⟨?_, hts.symm⟩
    cases hpc : t.pc <;> simp_all [Channel.nextPc] <;> grind

theorem Gated.flagging_advance (h : Gated c) (hopen : c.word.isOpen) (a : Advanced c i s c')
    (hs : c.sends[i]? = some s) (j : ℕ) (t' : Send τ) (isOpen : Bool)
    (ht' : c'.sends[j]? = some t') (hpc' : t'.pc = .flagging isOpen) : isOpen := by
  obtain ⟨t, ht, -, -, hpt⟩ := a.origin hs ht'
  rcases hpt with ⟨-, rfl⟩ | ⟨rfl, rfl, hpc⟩
  · exact h.flagging j t' isOpen ht hpc'
  · rw [hpc] at hpc'
    cases hpc : t.pc <;> simp_all [Channel.nextPc] <;> grind

/-- An increment is paid for by a free place or by its send, which is about to park. -/
theorem Gated.bound_advance (h : Gated c) (hopen : c.word.isOpen) (hbuffer : 0 < c.buffer)
    (hs : c.sends[i]? = some s) (a : Advanced c i s c')
    (hroom : s.pc = .incrementing → c.word.numMessages < maxCapacity) : c'.word.numMessages ≤
      c'.buffer - 1 + c'.aboutToPark.length + c'.parkedQueue.length + c'.receiver.settled := by
  obtain ⟨hreceiver, -, -, -, hbuf, -⟩ := a.frame
  have hparks := h.parks i s hs
  have hbound := h.bound
  have hword := a.word hroom
  have habout := aboutToPark_advance a hs
  rw [a.length_parkedQueue, hreceiver, hbuf]
  cases hpc : s.pc with
  | incrementing =>
      have hnext : c.nextPc s = .measuring (c.word.numMessages + 1) := by
        cases hkind : s.kind <;> simp_all [Channel.nextPc, SendKind.parks]
      simp only [hpc, hnext, hopen, SendPc.parksSoon, decide_eq_true_eq, and_self, if_true,
        Bool.false_eq_true, reduceCtorEq, if_false] at hword habout ⊢
      by_cases hfull : c.buffer ≤ c.word.numMessages + 1
      · rw [if_pos hfull] at habout
        omega
      · rw [if_neg hfull] at habout
        omega
  | measuring n =>
      by_cases hfull : c.buffer ≤ n
      · have hnext : c.nextPc s = .parking := by
          simp [Channel.nextPc, hpc, hfull, hparks, hbuffer.ne']
        simp_all [SendPc.parksSoon]
      · have hnext : c.nextPc s = .pushing := by
          simp [Channel.nextPc, hpc, hfull]
        simp_all [SendPc.parksSoon]
  | _ =>
      simp_all [Channel.nextPc, SendPc.parksSoon] <;> grind

theorem Gated.advance (h : Gated c) (hopen : c.word.isOpen) (hbuffer : 0 < c.buffer)
    (hs : c.sends[i]? = some s) (a : Advanced c i s c')
    (hroom : s.pc = .incrementing → c.word.numMessages < maxCapacity) : Gated c' where
  single := h.single_advance a hs
  parks j t' ht' := by
    obtain ⟨t, ht, -, hkind, -⟩ := a.origin hs ht'
    exact hkind ▸ h.parks j t ht
  known j t' ht' := by
    obtain ⟨t, ht, hsender, -⟩ := a.origin hs ht'
    rw [length_senders a, hsender]
    exact h.known j t ht
  distinct := h.distinct_advance a hs
  marked_known x hx := by
    rw [length_senders a]
    exact h.marked_lt a hs hx
  marked_parked := h.parked_advance a hs
  marked_free := h.free_advance a hs
  marked_flag := h.flag_advance hopen a hs
  entering := h.entering_advance a hs
  flagging := h.flagging_advance hopen a hs
  bound := h.bound_advance hopen hbuffer hs a hroom
  constant := a.frame.1 ▸ h.constant

/-- The receiver moves on, and unmarks no handle but the one it notifies. -/
theorem Gated.receive (h : Gated c) (hsends : c'.sends = c.sends)
    (hlength : c.senders.length ≤ c'.senders.length) (hbuffer : c'.buffer = c.buffer)
    (hmarked : c'.marked.Sublist c.marked)
    (hparked : ∀ x, c.isParked x → c'.isParked x ∨ (x ∈ c.marked ∧ x ∉ c'.marked))
    (hmaybe : ∀ x, c.maybeParked x → c'.maybeParked x)
    (hbound : c'.word.numMessages + c.parkedQueue.length + c.receiver.settled ≤
      c.word.numMessages + c'.parkedQueue.length + c'.receiver.settled)
    (hconstant : c'.receiver ≠ .unpark .raising ∧ ∀ x, c'.receiver ≠ .notify x .raising) :
    Gated c' := by
  refine ⟨?_, ?_, ?_, h.distinct.sublist hmarked, ?_, ?_, ?_, ?_, ?_, ?_, ?_, hconstant⟩
  · rw [hsends]
    exact h.single
  · rw [hsends]
    exact h.parks
  · rw [hsends]
    exact fun i s hs => (h.known i s hs).trans_le hlength
  · exact fun x hx => (h.marked_known x (hmarked.subset hx)).trans_le hlength
  · intro x hx
    exact (hparked x (h.marked_parked x (hmarked.subset hx))).resolve_right fun hout => hout.2 hx
  · rw [hsends]
    exact fun x hx => h.marked_free x (hmarked.subset hx)
  · rw [hsends]
    exact fun x hx => (h.marked_flag x (hmarked.subset hx)).imp_left (hmaybe x)
  · rw [hsends]
    intro i s hs hpc
    refine (hparked _ (h.entering i s hs hpc)).resolve_right fun hout => ?_
    have hfree := h.marked_free _ hout.1 i s hs rfl
    simp [hpc, SendPc.climbing] at hfree
  · rw [hsends]
    exact h.flagging
  · have habout : c'.aboutToPark = c.aboutToPark := by
      rw [Channel.aboutToPark, hsends, hbuffer, Channel.aboutToPark]
    have hold := h.bound
    rw [habout, hbuffer]
    omega

theorem recv_senders (c : Channel τ) : c.recv.sends = c.sends ∧ c.recv.buffer = c.buffer ∧
    c.recv.senders = match c.receiver with
      | .notify x _ => (c.setParked x false).senders
      | _ => c.senders := by
  obtain ⟨word, hclosed⟩ := setClosed_eq c
  unfold Channel.recv
  cases c.receiver with
  | next caller => dsimp only; split <;> exact ⟨rfl, rfl, rfl⟩
  | unpark why =>
      dsimp only
      split
      · exact ⟨rfl, rfl, rfl⟩
      · cases why <;> exact ⟨rfl, rfl, rfl⟩
      · exact ⟨rfl, rfl, rfl⟩
  | notify x why => cases why <;> exact ⟨rfl, rfl, rfl⟩
  | decrement caller m => cases caller <;> exact ⟨rfl, rfl, rfl⟩
  | check caller => cases caller <;> cases hword : c.word.isClosed <;> simp [Channel.empty, hword]
  | close =>
      simp only [hclosed]
      exact ⟨trivial, trivial, trivial⟩
  | _ => exact ⟨rfl, rfl, rfl⟩

/-- The receiver moves on without touching a handle. -/
theorem Gated.pass (h : Gated c) (hsends : c'.sends = c.sends) (hsenders : c'.senders = c.senders)
    (hbuffer : c'.buffer = c.buffer) (hmarked : c'.marked = c.marked)
    (hbound : c'.word.numMessages + c.parkedQueue.length + c.receiver.settled ≤
      c.word.numMessages + c'.parkedQueue.length + c'.receiver.settled)
    (hconstant : c'.receiver ≠ .unpark .raising ∧ ∀ x, c'.receiver ≠ .notify x .raising) :
    Gated c' :=
  h.receive hsends (congrArg List.length hsenders).ge hbuffer (hmarked ▸ List.Sublist.refl _)
    (fun x hx => Or.inl (by rwa [Channel.isParked, hsenders]))
    (fun x hx => by rwa [Channel.maybeParked, hsenders]) hbound hconstant

theorem Gated.notify {x : ℕ} {why : Unparking τ} (h : Gated c)
    (hreceiver : c.receiver = .notify x why) (hword : c.recv.word.numMessages = c.word.numMessages)
    (hpast : c.recv.receiver.past = false) : Gated c.recv := by
  obtain ⟨hsends, hbuffer, hsenders⟩ := recv_senders c
  have hmarked : c.marked = x :: c.parkedQueue.map Cell.value := by
    rw [Channel.marked, hreceiver]
    rfl
  obtain ⟨hx, -⟩ := List.nodup_cons.mp (hmarked ▸ h.distinct)
  have hrecv : c.recv = c.notify x why := by simp only [Channel.recv, hreceiver]
  simp only [hreceiver] at hsenders
  cases why with
  | raising => exact absurd hreceiver (h.constant.2 x)
  | closing => simp [hrecv, Channel.notify, Receiver.past, Unparking.past] at hpast
  | message caller m =>
      have hmarked' : c.recv.marked = c.parkedQueue.map Cell.value := by
        rw [hrecv]
        rfl
      have hsettled : c.recv.parkedQueue = c.parkedQueue ∧ c.recv.receiver.settled = 1 := by
        rw [hrecv]
        exact ⟨rfl, rfl⟩
      refine h.receive hsends ?_ hbuffer ?_ ?_ ?_ ?_ ?_
      · rw [hsenders]
        exact (List.length_modify ..).ge
      · rw [hmarked, hmarked']
        exact List.sublist_cons_self _ _
      · intro y hy
        by_cases hxy : x = y
        · subst hxy
          exact Or.inr ⟨by simp [hmarked], by rwa [hmarked']⟩
        · refine Or.inl ?_
          rw [isParked_eq] at hy ⊢
          rw [hsenders]
          simpa [Channel.setParked, hxy] using hy
      · intro y hy
        rw [maybeParked_eq] at hy ⊢
        rw [hsenders]
        by_cases hxy : x = y <;> cases hcy : c.senders[y]? <;>
          simp_all [Channel.setParked]
      · rw [hword, hsettled.1, hsettled.2, hreceiver]
        rfl
      · rw [hrecv]
        simp [Channel.notify]

/-- The receiver moves on without touching the parked queue. -/
theorem Gated.leave (h : Gated c) (hsends : c'.sends = c.sends) (hsenders : c'.senders = c.senders)
    (hbuffer : c'.buffer = c.buffer) (hnone : c.receiver.notified = [])
    (hafter : c'.parkedQueue = c.parkedQueue ∧ c'.receiver.notified = [] ∧
      c'.receiver ≠ .unpark .raising ∧ ∀ x, c'.receiver ≠ .notify x .raising)
    (hword : c'.word.numMessages + c.receiver.settled ≤
      c.word.numMessages + c'.receiver.settled) : Gated c' := by
  obtain ⟨hparked, hnone', hconstant⟩ := hafter
  refine h.pass hsends hsenders hbuffer ?_ ?_ hconstant
  · rw [Channel.marked, hparked, hnone', Channel.marked, hnone]
  · rw [hparked]
    omega

/-- The receiver takes a handle off the parked queue, or finds the queue empty or not yet linked. -/
theorem Gated.unpark {why : Unparking τ} (h : Gated c) (hreceiver : c.receiver = .unpark why)
    (hword : c.recv.word.numMessages = c.word.numMessages)
    (hpast : c.recv.receiver.past = false) : Gated c.recv := by
  obtain ⟨hsends, hbuffer, hsenders⟩ := recv_senders c
  have hconstant := h.constant
  simp only [hreceiver] at hsenders hconstant
  rcases hqueue : c.parkedQueue with _ | ⟨⟨y, _ | t⟩, rest⟩
  · have hrecv : c.recv = c.unparked why := by
      simp only [Channel.recv, hreceiver, hqueue, popSpin]
    cases why with
    | raising => exact absurd rfl hconstant.1
    | closing => simp [hrecv, Channel.unparked, Receiver.past, Caller.past] at hpast
    | message caller m =>
        refine h.pass hsends hsenders hbuffer ?_ ?_ ?_
        · simp [hrecv, Channel.unparked, Channel.marked, Receiver.notified, hreceiver]
        · rw [hreceiver]
          simp only [hrecv, Channel.unparked, Receiver.settled] at hword ⊢
          omega
        · simp [hrecv, Channel.unparked]
  · have hrecv : c.recv = { c with parkedQueue := rest, receiver := .notify y why } := by
      simp only [Channel.recv, hreceiver, hqueue, popSpin]
    cases why with
    | raising => exact absurd rfl hconstant.1
    | closing => simp [hrecv, Receiver.past, Unparking.past] at hpast
    | message caller m =>
        refine h.pass hsends hsenders hbuffer ?_ ?_ ?_
        · simp [hrecv, Channel.marked, Receiver.notified, hreceiver, hqueue]
        · rw [hreceiver]
          simp only [hrecv, hqueue, Receiver.settled, List.length_cons] at hword ⊢
          omega
        · simp [hrecv]
  · have hrecv : c.recv = c := by
      simp only [Channel.recv, hreceiver, hqueue, popSpin]
    rwa [hrecv]

theorem Gated.recv (h : Gated c) (hc : Counted c) (hpast : c.recv.receiver.past = false) :
    Gated c.recv := by
  obtain ⟨hsends, hbuffer, hsenders⟩ := recv_senders c
  have hword := hc.word_recv
  cases hreceiver : c.receiver with
  | notify x why =>
      rw [hreceiver] at hword
      exact h.notify hreceiver hword hpast
  | idle =>
      have hrecv : c.recv = c := by simp only [Channel.recv, hreceiver]
      rwa [hrecv]
  | gone =>
      have hrecv : c.recv = c := by simp only [Channel.recv, hreceiver]
      rwa [hrecv]
  | unpark why =>
      rw [hreceiver] at hword
      exact h.unpark hreceiver hword hpast
  | next caller =>
      simp only [hreceiver] at hsenders hword
      refine h.leave hsends hsenders hbuffer (by simp [hreceiver, Receiver.notified]) ?_ ?_
      · simp only [Channel.recv, hreceiver]
        split <;> simp [Receiver.notified, hreceiver]
      · simp only [hreceiver, Receiver.settled]
        omega
  | decrement caller m =>
      simp only [hreceiver] at hsenders hword
      refine h.leave hsends hsenders hbuffer (by simp [hreceiver, Receiver.notified]) ?_ ?_
      · simp only [Channel.recv, hreceiver]
        cases caller <;> simp [Channel.deliver, Receiver.notified]
      · simp only [hreceiver, Receiver.settled]
        omega
  | check caller =>
      simp only [hreceiver] at hsenders hword
      refine h.leave hsends hsenders hbuffer (by simp [hreceiver, Receiver.notified]) ?_ ?_
      · simp only [Channel.recv, hreceiver]
        cases caller <;> cases hclosed : c.word.isClosed <;>
          simp [Channel.empty, hclosed, Receiver.notified]
      · simp only [hreceiver, Receiver.settled]
        omega
  | register =>
      simp only [hreceiver] at hsenders hword
      refine h.leave hsends hsenders hbuffer (by simp [hreceiver, Receiver.notified]) ?_ ?_
      · simp [Channel.recv, hreceiver, Receiver.notified]
      · simp only [hreceiver, Receiver.settled]
        omega
  | recheck =>
      simp only [Channel.recv, hreceiver] at hpast
      split at hpast <;> simp [Receiver.past, Caller.past] at hpast
  | close => simp [Channel.recv, hreceiver, Receiver.past, Unparking.past] at hpast

theorem Gated.start {sender : ℕ} {kind : SendKind} {message : τ} (h : Gated c)
    (ha : c.OfferedParking (.send sender kind message)) :
    Gated (c.start sender kind message) := by
  obtain ⟨⟨handle, hhandle, -⟩, hparks, hfree⟩ := ha
  have hstart : (c.start sender kind message).sends =
      c.sends ++ [⟨sender, kind, message, .polling⟩] := by
    cases kind with
    | doSend => simp [SendKind.parks] at hparks
    | _ => rfl
  have hold {i : ℕ} {s : Send τ} (hs : (c.start sender kind message).sends[i]? = some s) :
      (i = c.sends.length ∧ s = ⟨sender, kind, message, .polling⟩) ∨ c.sends[i]? = some s := by
    rw [hstart, getElem?_snoc] at hs
    split at hs
    · exact Or.inl ⟨‹_›, (Option.some.inj hs).symm⟩
    · exact Or.inr hs
  have hbusy {i : ℕ} {s : Send τ} (hs : c.sends[i]? = some s) (hpc : ¬s.pc.Returned) :
      s.sender ≠ sender := fun heq => hpc (hfree s (List.mem_of_getElem? hs) heq)
  refine ⟨?_, ?_, ?_, h.distinct, h.marked_known, h.marked_parked, ?_, ?_, ?_, ?_, ?_, h.constant⟩
  · intro i j s t hs ht hrs hrt hsender
    rcases hold hs with ⟨rfl, rfl⟩ | hs' <;> rcases hold ht with ⟨rfl, rfl⟩ | ht'
    · rfl
    · exact absurd hsender.symm (hbusy ht' hrt)
    · exact absurd hsender (hbusy hs' hrs)
    · exact h.single i j s t hs' ht' hrs hrt hsender
  · intro i s hs
    rcases hold hs with ⟨-, rfl⟩ | hs'
    · exact hparks
    · exact h.parks i s hs'
  · intro i s hs
    rcases hold hs with ⟨-, rfl⟩ | hs'
    · exact (List.getElem?_eq_some_iff.mp hhandle).1
    · exact h.known i s hs'
  · intro x hx i s hs hsender
    rcases hold hs with ⟨-, rfl⟩ | hs'
    · rfl
    · exact h.marked_free x hx i s hs' hsender
  · intro x hx
    refine (h.marked_flag x hx).imp_right ?_
    rintro ⟨i, s, hs, hon⟩
    refine ⟨i, s, ?_, hon⟩
    rw [hstart, List.getElem?_append_left (List.getElem?_eq_some_iff.mp hs).1, hs]
  · intro i s hs hpc
    rcases hold hs with ⟨-, rfl⟩ | hs'
    · simp at hpc
    · exact h.entering i s hs' hpc
  · intro i s isOpen hs hpc
    rcases hold hs with ⟨-, rfl⟩ | hs'
    · simp at hpc
    · exact h.flagging i s isOpen hs' hpc
  · have habout : (c.start sender kind message).aboutToPark = c.aboutToPark := by
      rw [Channel.aboutToPark, hstart, List.filter_append, List.map_append]
      exact List.append_nil _
    rw [habout]
    exact h.bound

theorem Gated.step {a : Action τ} (h : Gated c) (hc : Counted c) (hbuffer : 0 < c.buffer)
    (ha : c.OfferedParking a) (hbefore : c.receiver.past = false)
    (hafter : (c.step a).receiver.past = false) : Gated (c.step a) := by
  cases a with
  | send sender kind message => exact h.start ha
  | advance i =>
      obtain ⟨⟨s, hs, -, hroom⟩, -⟩ := ha
      simp only [Channel.step, hs]
      exact h.advance (by simp [hc.isOpen, hbefore]) hbuffer hs (advanced hs) hroom
  | clone =>
      simp only [Channel.step, Channel.clone]
      split
      · exact h
      · refine h.receive rfl (by simp) rfl (List.Sublist.refl _) (fun x hx => Or.inl ?_) ?_ le_rfl
          h.constant
        · rw [isParked_eq] at hx ⊢
          rw [getElem?_snoc]
          split
          · simp_all
          · exact hx
        · intro x hx
          rw [maybeParked_eq] at hx ⊢
          rw [getElem?_snoc]
          split
          · simp_all
          · exact hx
  | dropSender sender =>
      refine h.receive rfl (by simp [Channel.step, Channel.dropSender]) rfl (List.Sublist.refl _)
        (fun x hx => Or.inl ?_) ?_ le_rfl h.constant
      · rw [isParked_eq] at hx ⊢
        by_cases hxs : sender = x <;> cases hcx : c.senders[x]? <;>
          simp_all [Channel.step, Channel.dropSender]
      · intro x hx
        rw [maybeParked_eq] at hx ⊢
        by_cases hxs : sender = x <;> cases hcx : c.senders[x]? <;>
          simp_all [Channel.step, Channel.dropSender]
  | wakeLast =>
      obtain ⟨waker, woken, hwake⟩ := wake_eq c
      simp only [Channel.step, hwake]
      exact h.pass rfl rfl rfl rfl le_rfl h.constant
  | poll =>
      have hidle : c.receiver = .idle := ha.1
      exact h.leave rfl rfl rfl (by simp [hidle, Receiver.notified])
        (by simp [Channel.step, Receiver.notified]) (by simp [hidle, Receiver.settled]; rfl)
  | resize cap => exact absurd ha.2 id
  | close =>
      have hidle : c.receiver = .idle := ha.1
      exact h.leave rfl rfl rfl (by simp [hidle, Receiver.notified])
        (by simp [Channel.step, Receiver.notified]) (by simp [hidle, Receiver.settled]; rfl)
  | recv => exact h.recv hc hafter

/-- The bound on the messages, with the gate that keeps it until the receiver closes the mailbox. -/
structure Fits (buffer : ℕ) (c : Channel τ) : Prop where
  sound : Sound c
  unchanged : c.buffer = buffer
  fits : c.word.numMessages ≤ buffer + c.senders.length
  gated : c.receiver.past = false → Gated c

theorem fits_channel {buffer : ℕ} : Fits buffer (Channel.channel τ buffer) := by
  have hsound := sound_channel (τ := τ) buffer
  have hzero : (Channel.channel τ buffer).word.numMessages = 0 := hsound.counted.count
  refine ⟨hsound, rfl, by rw [hzero]; exact Nat.zero_le _, fun _ => ?_⟩
  refine ⟨?_, ?_, ?_, List.nodup_nil, ?_, ?_, ?_, ?_, ?_, ?_, by rw [hzero]; exact Nat.zero_le _,
    ?_⟩ <;> simp [Channel.channel, Channel.marked, Receiver.notified]

theorem past_recv (h : c.receiver.past) : c.recv.receiver.past := by
  have hsame := h
  cases hreceiver : c.receiver with
  | next caller =>
      simp only [hreceiver, Receiver.past] at h
      simp only [Channel.recv, hreceiver]
      cases popSpin c.messageQueue with
      | spinning => exact hsame
      | _ => exact h
  | unpark why =>
      simp only [hreceiver, Receiver.past] at h
      simp only [Channel.recv, hreceiver]
      cases popSpin c.parkedQueue with
      | spinning => exact hsame
      | empty => cases why <;> exact h
      | value x rest => exact h
  | notify x why =>
      cases why <;> simp_all [Channel.recv, Channel.notify, Receiver.past, Unparking.past]
  | decrement caller m =>
      cases caller <;> simp_all [Channel.recv, Channel.deliver, Receiver.past, Caller.past]
  | check caller =>
      cases caller <;> cases hclosed : c.word.isClosed <;>
        simp_all [Channel.recv, Channel.empty, Receiver.past, Caller.past]
  | recheck =>
      simp only [Channel.recv, hreceiver]
      split <;> rfl
  | gone => simp [Channel.recv, hreceiver, Receiver.past]
  | _ => simp [hreceiver, Receiver.past] at h

/-- Nothing reopens a mailbox. -/
theorem past_step {a : Action τ} (ha : c.Offered a) (h : c.receiver.past) :
    (c.step a).receiver.past := by
  cases a with
  | advance i =>
      obtain ⟨s, hs, -⟩ := ha
      simp only [Channel.step, hs]
      rwa [(advanced hs).frame.1]
  | clone =>
      simp only [Channel.step, Channel.clone]
      split <;> exact h
  | wakeLast =>
      simp only [Channel.step, (wake_frame c).1]
      exact h
  | poll => simp [show c.receiver = .idle from ha, Receiver.past] at h
  | resize cap => simp [show c.receiver = .idle from ha, Receiver.past] at h
  | close => simp [show c.receiver = .idle from ha, Receiver.past] at h
  | recv => exact past_recv h
  | _ => exact h

/-- A closed mailbox lets nothing in. -/
theorem word_step_of_past {a : Action τ} (h : Counted c) (ha : c.Offered a)
    (hpast : (c.step a).receiver.past) :
    (c.step a).word.numMessages ≤ c.word.numMessages := by
  cases a with
  | advance i =>
      obtain ⟨s, hs, -, hroom⟩ := ha
      simp only [Channel.step, hs] at hpast ⊢
      have hclosed : c.word.isOpen = false := by
        rw [(advanced hs).frame.1] at hpast
        simp [h.isOpen, hpast]
      simp [(advanced hs).word hroom, hclosed]
  | clone =>
      simp only [Channel.step, Channel.clone]
      split <;> exact le_rfl
  | wakeLast =>
      obtain ⟨waker, woken, hwake⟩ := wake_eq c
      simp only [Channel.step, hwake]
      exact le_rfl
  | recv =>
      have hword := h.word_recv
      exact Nat.le.intro hword
  | _ => exact le_rfl

theorem frame_step {a : Action τ} (ha : c.OfferedParking a) :
    (c.step a).buffer = c.buffer ∧ c.senders.length ≤ (c.step a).senders.length := by
  cases a with
  | advance i =>
      obtain ⟨⟨s, hs, -⟩, -⟩ := ha
      simp only [Channel.step, hs]
      exact ⟨(advanced hs).frame.2.2.2.2.1, (length_senders (advanced hs)).ge⟩
  | clone =>
      simp only [Channel.step, Channel.clone]
      split <;> simp
  | dropSender sender => simp [Channel.step, Channel.dropSender]
  | wakeLast =>
      obtain ⟨waker, woken, hwake⟩ := wake_eq c
      simp only [Channel.step, hwake]
      exact ⟨trivial, le_rfl⟩
  | resize cap => exact absurd ha.2 id
  | recv =>
      obtain ⟨-, hbuffer, hsenders⟩ := recv_senders c
      refine ⟨hbuffer, ?_⟩
      change _ ≤ c.recv.senders.length
      rw [hsenders]
      split <;> simp [Channel.setParked]
  | _ => exact ⟨rfl, le_rfl⟩

theorem fits_step {buffer : ℕ} {a : Action τ} (hbuffer : 0 < buffer) (h : Fits buffer c)
    (ha : c.OfferedParking a) : Fits buffer (c.step a) := by
  obtain ⟨hbuf, hlength⟩ := frame_step ha
  have hsound := sound_step h.sound ha.1
  have hgated : (c.step a).receiver.past = false → Gated (c.step a) := by
    intro hafter
    have hbefore : c.receiver.past = false := by
      by_contra hpast
      simp [past_step ha.1 (by simpa using hpast)] at hafter
    exact (h.gated hbefore).step h.sound.counted (h.unchanged.symm ▸ hbuffer) ha hbefore hafter
  refine ⟨hsound, hbuf.trans h.unchanged, ?_, hgated⟩
  cases hpast : (c.step a).receiver.past with
  | true =>
      have hle := word_step_of_past h.sound.counted ha.1 hpast
      have hfits := h.fits
      omega
  | false =>
      have hcapacity := (hgated hpast).capacity (by rw [hbuf, h.unchanged]; exact hbuffer)
      rwa [hbuf, h.unchanged] at hcapacity

/-- With parking sends, one at a time on a handle, a mailbox never holds more messages than its
buffer and one for each handle that was made. -/
theorem mailbox_capacity (buffer : ℕ) (as : List (Action τ)) (hbuffer : 0 < buffer)
    (has : Admissible Channel.step Channel.OfferedParking (Channel.channel τ buffer) as) :
    let c := run Channel.step (Channel.channel τ buffer) as
    c.word.numMessages ≤ buffer + c.senders.length :=
  (invariant_run (I := Fits buffer) (fun _ _ h ha => fits_step hbuffer h ha) fits_channel has).fits

instance [DecidableEq τ] (c : Channel τ) : ∀ a, Decidable (c.OfferedParking a)
  | .send _ _ _ => inferInstanceAs (Decidable (_ ∧ _ ∧ _))
  | .resize _ => inferInstanceAs (Decidable (_ ∧ False))
  | .advance _ | .clone | .dropSender _ | .wakeLast | .poll | .close | .recv =>
    inferInstanceAs (Decidable (_ ∧ True))

/-- Two handles fill a mailbox with a buffer of one, and both are parked. -/
def fillingSends : List (Action ℕ) :=
  .clone :: .send 0 .send 7 :: List.replicate 11 (.advance 0) ++
    .send 1 .send 8 :: List.replicate 11 (.advance 1)

theorem mailbox_capacity_filled :
    let c := run Channel.step (Channel.channel ℕ 1) fillingSends
    c.word.numMessages ≤ 1 + c.senders.length ∧ c.word.numMessages = 2 ∧
      c.isParked 0 ∧ c.isParked 1 :=
  ⟨mailbox_capacity 1 fillingSends (by decide) (by decide +kernel), by decide +kernel⟩

end Capacity

end ActixPura.MailboxChannel
