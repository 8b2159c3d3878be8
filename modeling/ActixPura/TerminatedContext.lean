import ActixPura.StopProtocol

/-!
# A terminated context returns

Once `terminate` has been called the moves left are counted by `rank`: the loop goes round at most
once more, to take in what was added, and then comes to `stopped`. Every move pays for itself, and
what the poll still owes, one call of `stopped` and one answer that it is ready, is paid on the way.
-/

namespace ActixPura.ContextRun

open Runs ContextFut

def Terminated (f : ContextFut) : Prop := mode f = (false, false, true)

/-- The moves a terminated context needs at most to return. -/
def rank (f : ContextFut) : ContextPc → ℕ
  | .done | .finished => 0
  | .inStopped => 1
  | .check => 2
  | .endItems => 3 + if f.modified then 5 else 0
  | .items _ => 4 + if f.modified then 5 else 0
  | .afterMailbox => 5 + if f.modified then 5 else 0
  | .mailbox => 6 + if f.modified then 5 else 0
  | .outer => 7 + if f.modified then 5 else 0
  | .inStarted | .inWait | .inMessage | .inItem _ => 13
  | .idle => 14
  | .creating | .inRestarting | .inStopping _ => 15

/-- At the end of the item loop of a terminated context no cancellation is queued or no future is
left, and a call of `stopping` that was asked for and has terminated the context answers to stop. -/
def StopsCleanly (s : ContextRun) : ContextAction → Prop
  | .advance answer => s.fut.parts.flags.stopped = true →
    (s.pc = .endItems → s.fut.parts.canceled = [] ∨ s.fut.present = []) ∧
      (s.pc = .inStopping true → answer = true)
  | _ => True

instance decidableStopsCleanly (s : ContextRun) : ∀ a, Decidable (s.StopsCleanly a)
  | .advance answer => inferInstanceAs (Decidable (s.fut.parts.flags.stopped = true →
      (s.pc = .endItems → s.fut.parts.canceled = [] ∨ s.fut.present = []) ∧
        (s.pc = .inStopping true → answer = true)))
  | .call _ | .connect _ => isTrue trivial

/-- The calls of `stopped` that are still to come. -/
def owesStopped : ContextPc → ℕ
  | .inStopped | .done | .finished => 0
  | _ => 1

def owesReady : ContextPc → ℕ
  | .done | .finished => 0
  | _ => 1

/-- A call of `stopping` that was not asked for can end the poll in which it terminates the context.
The next poll then is the one that returns. -/
def mayPend : ContextPc → ℕ
  | .inStopping false => 1
  | _ => 0

structure Progress (f : ContextFut) (pc : ContextPc) (m : ContextMove) : Prop where
  terminated : Terminated m.fut
  rank : rank m.fut m.pc < rank f pc
  unfinished : m.pc ≠ .finished
  stopped : m.events.count .stopped + owesStopped m.pc = owesStopped pc
  ready : m.events.count .ready + owesReady m.pc = owesReady pc
  pending : m.events.count .pending + mayPend m.pc ≤ mayPend pc

section Moves

variable {f : ContextFut}

theorem Terminated.stopped (h : Terminated f) : f.parts.flags.stopped = true := by
  simp only [Terminated, mode, Prod.mk.injEq] at h
  exact h.2.2

theorem Terminated.stopping (h : Terminated f) : f.stopping = true := stopping_of_stopped h.stopped

theorem rank_outer_le (f : ContextFut) : rank f .outer ≤ 12 := by
  simp only [rank]
  split <;> omega

theorem rank_items_le (f : ContextFut) (idx : ℕ) : rank f (.items idx) ≤ 9 := by
  simp only [rank]
  split <;> omega

/-- A move that pays nothing and owes what it owed. -/
theorem Progress.quiet {pc : ContextPc} {m : ContextMove} (hterminated : Terminated m.fut)
    (hrank : ContextRun.rank m.fut m.pc < ContextRun.rank f pc) (hpc : m.pc ≠ .finished)
    (howes : owesStopped m.pc = owesStopped pc) (hready : owesReady m.pc = owesReady pc)
    (hpend : mayPend m.pc = 0)
    (hevents : ∀ e ∈ m.events, e = .started ∨ ∃ item c, e = .removed item c) :
    Progress f pc m := by
  have hzero : ∀ e : ContextEvent, e ≠ .started → (∀ item c, e ≠ .removed item c) →
      m.events.count e = 0 := by
    intro e hstarted hremoved
    refine List.count_eq_zero.mpr fun hmem => ?_
    rcases hevents e hmem with rfl | ⟨item, c, rfl⟩
    · exact hstarted rfl
    · exact hremoved item c rfl
  refine ⟨hterminated, hrank, hpc, ?_, ?_, ?_⟩
  · rw [hzero .stopped (by simp) (by simp), Nat.zero_add, howes]
  · rw [hzero .ready (by simp) (by simp), Nat.zero_add, hready]
  · rw [hzero .pending (by simp) (by simp), Nat.zero_add, hpend]
    exact Nat.zero_le _

theorem progress_startPoll (h : Terminated f) : Progress f .idle f.startPoll := by
  unfold startPoll
  split
  · exact .quiet h ((rank_outer_le f).trans_lt (by simp [rank])) (by simp) rfl rfl rfl (by simp)
  · exact .quiet h (by simp [rank]) (by simp) rfl rfl rfl (by simp)

theorem removed_of_mem_clean {e : ContextEvent} (h : e ∈ f.cleanCanceledHandle.2) :
    e = .started ∨ ∃ item c, e = .removed item c := by
  obtain ⟨item, -, c, -, rfl⟩ := of_mem_clean h
  exact Or.inr ⟨item, c, rfl⟩

theorem progress_afterStarted (h : Terminated f) : Progress f .inStarted f.afterStarted := by
  unfold afterStarted
  split
  · exact .quiet ((mode_clean _).trans h) ((rank_outer_le _).trans_lt (by simp [rank])) (by simp)
      rfl rfl rfl fun _ => removed_of_mem_clean
  · exact .quiet h ((rank_outer_le _).trans_lt (by simp [rank])) (by simp) rfl rfl rfl (by simp)

theorem progress_pollWait (h : Terminated f) : Progress f .outer f.pollWait := by
  simp only [pollWait, h.stopping, Bool.true_eq_false, and_false, if_false]
  exact .quiet h (by simp [rank]) (by simp) rfl rfl rfl (by simp)

theorem progress_afterWait (h : Terminated f) (answer : Bool) :
    Progress f .inWait (f.afterWait answer) := by
  have halive : f.parts.flags.alive = false := by
    have hmode : mode f = (false, false, true) := h
    simp only [mode, Prod.mk.injEq] at hmode
    simp [ContextFlags.alive, ContextFlags.isStopping, hmode]
  simp only [afterWait, halive, Bool.false_eq_true, and_false, if_false]
  exact .quiet h ((rank_outer_le _).trans_lt (by simp [rank])) (by simp) rfl rfl rfl (by simp)

theorem progress_pollMailbox (h : Terminated f) (answer : Bool) :
    Progress f .mailbox (f.pollMailbox answer) := by
  have hwaiting : f.parts.waiting = true := by
    have hstopping := h.stopping
    rw [stopping] at hstopping
    simp [ContextParts.waiting, hstopping]
  simp only [pollMailbox, hwaiting, Bool.true_eq_false, false_and, if_false]
  exact .quiet h (by simp [rank]) (by simp) rfl rfl rfl (by simp)

theorem progress_afterMailbox (h : Terminated f) : Progress f .afterMailbox f.afterMailbox := by
  simp only [ContextFut.afterMailbox, h.stopping, Bool.true_eq_false, and_false, if_false]
  exact .quiet h (by simp [rank]) (by simp) rfl rfl rfl (by simp)

theorem progress_pollItems (h : Terminated f) (idx : ℕ) :
    Progress f (.items idx) (f.pollItems idx) := by
  have hmove : f.pollItems idx = ⟨f, .endItems, []⟩ := by
    unfold pollItems
    split
    · rfl
    · rw [if_pos h.stopping]
  rw [hmove]
  exact .quiet h (by simp [rank]) (by simp) rfl rfl rfl (by simp)

theorem progress_afterReady (h : Terminated f) (idx : ℕ) :
    Progress f (.inItem idx) (f.afterReady idx) := by
  have hterminated := (mode_mergeIfWaiting { f with items := swapRemove f.items idx }).trans h
  simp only [afterReady]
  split
  · exact .quiet hterminated ((rank_outer_le _).trans_lt (by simp [rank])) (by simp) rfl rfl rfl
      (by simp)
  · exact .quiet hterminated ((rank_items_le _ _).trans_lt (by simp [rank])) (by simp) rfl rfl rfl
      (by simp)

theorem progress_afterPending (h : Terminated f) (idx : ℕ) :
    Progress f (.inItem idx) (f.afterPending idx) := by
  have hterminated := (mode_mergeIfWaiting f).trans h
  simp only [afterPending]
  split
  · exact .quiet ((mode_clean _).trans hterminated)
      ((rank_outer_le _).trans_lt (by simp [rank])) (by simp) rfl rfl rfl
      fun _ => removed_of_mem_clean
  · split
    · exact .quiet hterminated ((rank_outer_le _).trans_lt (by simp [rank])) (by simp) rfl rfl rfl
        (by simp)
    · exact .quiet hterminated ((rank_items_le _ _).trans_lt (by simp [rank])) (by simp) rfl rfl
        rfl (by simp)

/-- The loop goes round with nothing left to take in. -/
theorem progress_endItems (h : Terminated f) (hok : f.parts.canceled = [] ∨ f.present = []) :
    Progress f .endItems f.endItems := by
  simp only [ContextFut.endItems]
  split
  case isTrue hmodified =>
    have hnext : (f.setCurrHandle 0).merge.truncateCanceled.modified = false := by
      unfold truncateCanceled
      split
      case isTrue => simp [modified, ContextFut.merge, setCurrHandle]
      case isFalse hitems =>
        have hcanceled := hok.resolve_right hitems
        simp [modified, ContextFut.merge, setCurrHandle, hcanceled]
    exact .quiet ((mode_truncateCanceled _).trans h) (by simp [rank, hnext, hmodified.1]) (by simp)
      rfl rfl rfl (by simp)
  case isFalse =>
    refine .quiet h ?_ (by simp) rfl rfl rfl (by simp)
    simp only [rank]
    omega

theorem progress_check (h : Terminated f) : Progress f .check f.check := by
  have hmode : mode f = (false, false, true) := h
  simp only [mode, Prod.mk.injEq] at hmode
  have hmove : f.check = ⟨f, .inStopped, [.stopped]⟩ := by
    simp [ContextFut.check, hmode]
  rw [hmove]
  exact ⟨h, by simp [rank], by simp, by simp [owesStopped], by simp [owesReady],
    by simp [mayPend]⟩

theorem progress_afterStopping (h : Terminated f) {requested stop : Bool}
    (hok : requested = true → stop = true) :
    Progress f (.inStopping requested) (f.afterStopping requested stop) := by
  unfold afterStopping
  split
  · exact ⟨rfl, by simp [rank], by simp, by simp [owesStopped], by simp [owesReady],
      by simp [mayPend]⟩
  · split
    case isTrue hstop hrequested => exact absurd (hok hrequested) hstop
    case isFalse hrequested =>
      obtain rfl : requested = false := by simpa using hrequested
      exact ⟨h, by simp [rank], by simp, by simp [owesStopped], by simp [owesReady],
        by simp [mayPend]⟩

theorem progress_move (h : Terminated f) {answer : Bool} {pc : ContextPc}
    (hdone : pc ≠ .done) (hfinished : pc ≠ .finished)
    (hend : pc = .endItems → f.parts.canceled = [] ∨ f.present = [])
    (hstop : pc = .inStopping true → answer = true) : Progress f pc (f.move answer pc) := by
  cases pc with
  | creating | inRestarting =>
      exact .quiet h (by simp [move, rank]) (by simp [move]) rfl rfl rfl (by simp [move])
  | inMessage =>
      have hrank : rank f .mailbox < 13 := by
        simp only [rank]
        split <;> omega
      exact .quiet h hrank (by simp [move]) rfl rfl rfl (by simp [move])
  | inStopped =>
      exact ⟨h, by simp [move, rank], by simp [move], by simp [move, owesStopped],
        by simp [move, owesReady], by simp [move, mayPend]⟩
  | idle => exact progress_startPoll h
  | inStarted => exact progress_afterStarted h
  | outer => exact progress_pollWait h
  | inWait => exact progress_afterWait h answer
  | mailbox => exact progress_pollMailbox h answer
  | afterMailbox => exact progress_afterMailbox h
  | items idx => exact progress_pollItems h idx
  | inItem idx =>
      simp only [move]
      split
      · exact progress_afterReady h idx
      · exact progress_afterPending h idx
  | endItems => exact progress_endItems h (hend rfl)
  | check => exact progress_check h
  | inStopping requested =>
      exact progress_afterStopping h fun hrequested => hstop (by rw [hrequested])
  | done => exact absurd rfl hdone
  | finished => exact absurd rfl hfinished

end Moves

section Runs

variable {s : ContextRun}

def isAdvance : ContextAction → Bool
  | .advance _ => true
  | _ => false

/-- Within the actions the context comes to the answer that it is ready. From here to there it does
no work, `stopped` is called unless it is being called now, and no other poll ends but the one in
which `stopping` was called by itself. -/
def ReturnsReady (s : ContextRun) (as : List ContextAction) : Prop :=
  ∃ n ≤ as.length, (run step s (as.take n)).pc = .done ∧
    ∃ new, (run step s (as.take n)).log = s.log ++ new ∧ (∀ e ∈ new, e.isWork = false) ∧
      new.count .stopped = owesStopped s.pc ∧ new.count .ready = owesReady s.pc ∧
        new.count .pending ≤ mayPend s.pc

/-- What happens from one state to the next does no work and is paid from what is owed. -/
structure Pays (s s' : ContextRun) (events : List ContextEvent) : Prop where
  log : s'.log = s.log ++ events
  work : ∀ e ∈ events, e.isWork = false
  stopped : events.count .stopped + owesStopped s'.pc = owesStopped s.pc
  ready : events.count .ready + owesReady s'.pc = owesReady s.pc
  pending : events.count .pending + mayPend s'.pc ≤ mayPend s.pc

theorem ReturnsReady.cons {a : ContextAction} {as : List ContextAction}
    {events : List ContextEvent} (h : (s.step a).ReturnsReady as)
    (hpays : Pays s (s.step a) events) : s.ReturnsReady (a :: as) := by
  obtain ⟨n, hn, hdone, new, hnew, hwork, hstopped, hready, hpending⟩ := h
  have hpaid := hpays.pending
  refine ⟨n + 1, by simpa using hn, hdone, events ++ new, ?_, ?_, ?_, ?_, ?_⟩
  · rw [List.take_succ_cons, run_cons, hnew, hpays.log, List.append_assoc]
  · intro e he
    exact (List.mem_append.mp he).elim (hpays.work e) (hwork e)
  · rw [List.count_append, hstopped, hpays.stopped]
  · rw [List.count_append, hready, hpays.ready]
  · rw [List.count_append]
    omega

theorem returnsReady_nil (h : s.pc = .done) (as : List ContextAction) : s.ReturnsReady as :=
  ⟨0, Nat.zero_le _, h, [], by simp, by simp, by simp [h, owesStopped], by simp [h, owesReady],
    by simp⟩

theorem terminated_apply {f : ContextFut} (h : Terminated f) (op : ContextOp) :
    Terminated (f.withParts (op.apply f.parts)) := by
  have hmode : mode f = (false, false, true) := h
  simp only [mode, Prod.mk.injEq] at hmode
  cases op with
  | spawn | wait | setMailboxCapacity | cancelFuture handle => exact h
  | terminate => rfl
  | stop => simp [Terminated, mode, withParts, ContextOp.apply, ContextParts.stop, hmode]

theorem rank_connect (f : ContextFut) (connected : Bool) (pc : ContextPc) :
    rank { f with connected := connected } pc = rank f pc := by
  cases pc <;> rfl

theorem rank_callback {f f' : ContextFut} {pc : ContextPc} (h : pc.callback = true) :
    rank f' pc = rank f pc := by
  cases pc <;> first | rfl | cases h

theorem isWork_move {f : ContextFut} (h : Terminated f) {answer : Bool} {pc : ContextPc}
    {e : ContextEvent} (he : e ∈ (f.move answer pc).events) : e.isWork = false := by
  cases hwork : e.isWork with
  | false => rfl
  | true =>
      have hstopping := not_stopping_of_isWork (visible_of_mem_move he) hwork
      rw [h.stopping] at hstopping
      cases hstopping

theorem rank_pos (f : ContextFut) {pc : ContextPc} (hdone : pc ≠ .done)
    (hfinished : pc ≠ .finished) : 0 < rank f pc := by
  cases pc with
  | done => exact absurd rfl hdone
  | finished => exact absurd rfl hfinished
  | creating | idle | inStarted | outer | inWait | mailbox | inMessage | afterMailbox | items idx
  | inItem idx | endItems | check | inStopping requested | inStopped | inRestarting =>
      simp only [rank]
      omega

theorem pays_nothing {s' : ContextRun} {events : List ContextEvent} (hpc : s'.pc = s.pc)
    (hlog : s'.log = s.log ++ events)
    (hevents : ∀ e ∈ events, e.isWork = false ∧ e ≠ .stopped ∧ e ≠ .ready ∧ e ≠ .pending) :
    Pays s s' events := by
  have hzero : ∀ e : ContextEvent, e = .stopped ∨ e = .ready ∨ e = .pending →
      events.count e = 0 := by
    intro e he
    refine List.count_eq_zero.mpr fun hmem => ?_
    have := hevents e hmem
    tauto
  refine ⟨hlog, fun e he => (hevents e he).1, ?_, ?_, ?_⟩
  · rw [hzero .stopped (by simp), hpc, Nat.zero_add]
  · rw [hzero .ready (by simp), hpc, Nat.zero_add]
  · rw [hzero .pending (by simp), hpc, Nat.zero_add]

/-- Every action of a terminated context pays, and a move brings it nearer to the answer. -/
theorem terminated_step {a : ContextAction} (h : Terminated s.fut) (hdone : s.pc ≠ .done)
    (hfinished : s.pc ≠ .finished) (hok : s.StopsCleanly a) :
    Terminated (s.step a).fut ∧ (s.step a).pc ≠ .finished ∧
      rank (s.step a).fut (s.step a).pc + (isAdvance a).toNat ≤ rank s.fut s.pc ∧
        ∃ events, Pays s (s.step a) events := by
  cases a with
  | connect connected =>
      refine ⟨h, hfinished, ?_, [], pays_nothing rfl (List.append_nil _).symm (by simp)⟩
      exact (rank_connect s.fut connected s.pc).le
  | advance answer =>
      have hclean := hok h.stopped
      have hmove := progress_move h hdone hfinished hclean.1 hclean.2
      exact ⟨hmove.terminated, hmove.unfinished, hmove.rank, _, rfl, fun e he => isWork_move h he,
        hmove.stopped, hmove.ready, hmove.pending⟩
  | call op =>
      simp only [step]
      split
      case isTrue hpc =>
        refine ⟨terminated_apply h op, hfinished, (rank_callback hpc).le, _,
          pays_nothing rfl rfl fun e he => ?_⟩
        cases op <;> simp [ContextOp.events] at he <;> subst he <;> simp [ContextEvent.isWork]
      case isFalse =>
        exact ⟨h, hfinished, le_rfl, [], pays_nothing rfl (List.append_nil _).symm (by simp)⟩

/-- A terminated context returns as soon as it has made the moves of its rank. -/
theorem terminated_returnsReady {as : List ContextAction} (h : Terminated s.fut)
    (hfinished : s.pc ≠ .finished) (hok : Admissible step StopsCleanly s as)
    (hmoves : rank s.fut s.pc ≤ as.countP isAdvance) : s.ReturnsReady as := by
  induction as generalizing s with
  | nil =>
      by_cases hdone : s.pc = .done
      · exact returnsReady_nil hdone []
      · have hpos := rank_pos s.fut hdone hfinished
        rw [List.countP_nil] at hmoves
        omega
  | cons a as ih =>
      by_cases hdone : s.pc = .done
      · exact returnsReady_nil hdone _
      · obtain ⟨hnext, hunfinished, hrank, events, hpays⟩ :=
          terminated_step h hdone hfinished hok.1
        refine ReturnsReady.cons (ih hnext hunfinished hok.2 ?_) hpays
        rw [List.countP_cons] at hmoves
        cases hadvance : isAdvance a with
        | false => simpa [hadvance] using hrank.trans hmoves
        | true =>
            simp only [hadvance, Bool.toNat_true, if_true] at hrank hmoves
            omega

end Runs

end ActixPura.ContextRun
