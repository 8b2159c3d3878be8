import ActixPura.TerminatedContext

/-!
# The protocol of stop and terminate

What `terminate` promises over whole runs. The condition on the two places that break the promise is
sharp: a step that does not meet it leads to a poll that goes round for ever, or to polls that are
pending for ever.
-/

namespace ActixPura.ContextRun

open Runs ContextFut

/-- Wherever a callback calls `terminate`, the context returns within so many moves. -/
def TerminateHonoured (bound : ℕ) (connected : Bool) (as : List ContextAction) : Prop :=
  ∀ before after, as = before ++ .call .terminate :: after →
    (run step (new connected) before).pc.callback = true → bound ≤ after.countP isAdvance →
      (run step (new connected) (before ++ [.call .terminate])).ReturnsReady after

section Reachable

variable {s : ContextRun}

def returning : ContextPc → Bool
  | .inStopped | .done | .finished => true
  | _ => false

/-- The stopped flag stands alone, and before `stopped` it comes from `terminate`. -/
structure Terminable (s : ContextRun) : Prop where
  alone : s.fut.parts.flags.stopped = true → Terminated s.fut
  marked : s.fut.parts.flags.stopped = true → returning s.pc = false →
    Since .terminate (· = .restarting) s.log

theorem terminable_call {op : ContextOp} (h : s.Terminable) (hpc : s.pc.callback = true) :
    (s.step (.call op)).Terminable := by
  have hstep : s.step (.call op) =
      ⟨s.fut.withParts (op.apply s.fut.parts), s.pc, s.log ++ op.events s.fut.parts⟩ := by
    simp [step, hpc, withParts]
  rw [hstep]
  have hlog : ∀ e ∈ op.events s.fut.parts, decide (e = .restarting) = false := by
    intro e he
    cases op <;> simp [ContextOp.events] at he <;> subst he <;> rfl
  by_cases hop : op = .terminate
  · subst hop
    exact ⟨fun _ => rfl, fun _ _ => since_concat _ _ _⟩
  · have hstopped : (op.apply s.fut.parts).flags.stopped = s.fut.parts.flags.stopped := by
      cases op with
      | spawn | wait | setMailboxCapacity | cancelFuture handle => rfl
      | terminate => exact absurd rfl hop
      | stop =>
          simp only [ContextOp.apply, ContextParts.stop]
          split <;> rfl
    refine ⟨fun hs => terminated_apply (h.alone (hstopped ▸ hs)) op, fun hs hr => ?_⟩
    exact (h.marked (hstopped ▸ hs) hr).append hlog

theorem returning_move (f : ContextFut) (answer : Bool) {pc : ContextPc}
    (h : returning pc = true) : returning (f.move answer pc).pc = true ∨
      (f.move answer pc).fut.parts.flags.stopped = false := by
  cases pc with
  | inStopped | finished => exact Or.inl rfl
  | done =>
      simp only [move, supervise]
      split
      · exact Or.inr rfl
      · exact Or.inl rfl
  | creating | idle | inStarted | outer | inWait | mailbox | inMessage | afterMailbox | items idx
  | inItem idx | endItems | check | inStopping requested | inRestarting => cases h

theorem terminable_stopping {requested answer : Bool} (h : s.Terminable)
    (hpc : s.pc = .inStopping requested) (hok : s.StopsCleanly (.advance answer)) :
    (s.step (.advance answer)).Terminable := by
  have hmarked := fun hs => h.marked hs (by rw [hpc]; rfl)
  simp only [StopsCleanly, hpc] at hok
  simp only [step, hpc, move, afterStopping]
  split
  case isTrue => exact ⟨fun _ => rfl, fun _ hr => by cases hr⟩
  case isFalse hanswer =>
    split
    case isTrue hrequested =>
      subst hrequested
      exact ⟨fun hs => absurd ((hok hs).2 rfl) hanswer, fun hs => absurd ((hok hs).2 rfl) hanswer⟩
    case isFalse =>
      exact ⟨h.alone, fun hs _ => (hmarked hs).append (by simp)⟩

theorem terminable_advance {answer : Bool} (h : s.Terminable)
    (hok : s.StopsCleanly (.advance answer)) : (s.step (.advance answer)).Terminable := by
  by_cases hstopping : ∃ requested, s.pc = .inStopping requested
  · obtain ⟨requested, hpc⟩ := hstopping
    exact terminable_stopping h hpc hok
  · rw [not_exists] at hstopping
    by_cases hdone : s.pc = .done
    · simp only [step, hdone, move, supervise]
      split
      · exact ⟨fun hs => absurd hs Bool.false_ne_true, fun hs => absurd hs Bool.false_ne_true⟩
      · exact ⟨h.alone, fun _ hr => by cases hr⟩
    · have hmode := mode_move s.fut answer hdone hstopping
      have hstopped : (s.fut.move answer s.pc).fut.parts.flags.stopped =
          s.fut.parts.flags.stopped := by
        simp only [mode, Prod.mk.injEq] at hmode
        exact hmode.2.2
      refine ⟨fun hs => hmode.trans (h.alone (hstopped ▸ hs)), fun hs hr => ?_⟩
      by_cases hreturning : returning s.pc = true
      · rcases returning_move s.fut answer hreturning with hr' | hs'
        · exact absurd hr (by simp [step, hr'])
        · exact absurd hs (by simp [step, hs'])
      · refine (h.marked (hstopped ▸ hs) (by simpa using hreturning)).append fun e he => ?_
        rw [decide_eq_false_iff_not]
        rintro rfl
        rcases visible_of_mem_move he with hpc | hpc
        · exact hdone hpc
        · rw [hpc] at hreturning
          exact hreturning rfl

theorem terminable_step {a : ContextAction} (h : s.Terminable) (hok : s.StopsCleanly a) :
    (s.step a).Terminable := by
  cases a with
  | connect connected => exact ⟨h.alone, h.marked⟩
  | advance answer => exact terminable_advance h hok
  | call op =>
      by_cases hpc : s.pc.callback = true
      · exact terminable_call h hpc
      · simpa [step, hpc] using h

end Reachable

section Endless

variable {s : ContextRun}

def looping : ContextPc → Bool
  | .outer | .mailbox | .afterMailbox | .items _ | .endItems => true
  | _ => false

/-- A terminated context with a queued cancellation and a future left goes round. -/
structure Circling (s : ContextRun) : Prop where
  terminated : Terminated s.fut
  canceled : s.fut.parts.canceled ≠ []
  present : s.fut.present ≠ []
  looping : looping s.pc = true

theorem circling_endItems {f : ContextFut} (h : Terminated f) (hcanceled : f.parts.canceled ≠ [])
    (hpresent : f.present ≠ []) :
    f.endItems = ⟨(f.setCurrHandle 0).merge, .outer, []⟩ := by
  have hmode : mode f = (false, false, true) := h
  simp only [mode, Prod.mk.injEq] at hmode
  have hmodified : f.modified = true := by simp [modified, hcanceled]
  have hitems : (f.setCurrHandle 0).merge.items ≠ [] := hpresent
  have hstopping : (f.setCurrHandle 0).merge.parts.flags.stopping = false := hmode.2.1
  simp only [ContextFut.endItems, hmodified, hstopping, and_self, if_true, truncateCanceled, hitems,
    if_false]

theorem circling_advance {answer : Bool} (h : s.Circling) :
    (s.step (.advance answer)).Circling := by
  obtain ⟨fut, pc, log⟩ := s
  obtain ⟨hterminated, hcanceled, hpresent, hlooping⟩ := h
  simp only at hterminated hcanceled hpresent hlooping
  have hstopping := hterminated.stopping
  cases pc with
  | outer =>
      simp only [step, move, pollWait, hstopping, Bool.true_eq_false, and_false, if_false]
      exact ⟨hterminated, hcanceled, hpresent, rfl⟩
  | mailbox =>
      have hwaiting : fut.parts.waiting = true := by
        rw [stopping] at hstopping
        simp [ContextParts.waiting, hstopping]
      simp only [step, move, pollMailbox, hwaiting, Bool.true_eq_false, false_and, if_false]
      exact ⟨hterminated, hcanceled, hpresent, rfl⟩
  | afterMailbox =>
      simp only [step, move, ContextFut.afterMailbox, hstopping, Bool.true_eq_false, and_false,
        if_false]
      exact ⟨hterminated, hcanceled, hpresent, rfl⟩
  | items idx =>
      have hmove : fut.pollItems idx = ⟨fut, .endItems, []⟩ := by
        unfold pollItems
        split
        · rfl
        · rw [if_pos hstopping]
      simp only [step, move, hmove]
      exact ⟨hterminated, hcanceled, hpresent, rfl⟩
  | endItems =>
      simp only [step, move, circling_endItems hterminated hcanceled hpresent]
      exact ⟨hterminated, hcanceled, by simpa [present, ContextFut.merge, setCurrHandle] using
        hpresent, rfl⟩
  | creating | idle | inStarted | inWait | inMessage | inItem idx | check | inStopping requested
  | inStopped | done | inRestarting | finished => cases hlooping

def asking : ContextPc → Bool
  | .idle | .inStarted | .outer | .mailbox | .afterMailbox | .items _ | .endItems | .check
  | .inStopping false => true
  | _ => false

/-- A terminated context that counts as running asks `stopping` at the end of every poll. -/
structure Asking (s : ContextRun) : Prop where
  mode : mode s.fut = (true, false, true)
  asking : asking s.pc = true

theorem asking_move {f : ContextFut} {pc : ContextPc} (h : mode f = (true, false, true))
    (hpc : asking pc = true) : asking (f.move false pc).pc = true := by
  simp only [mode, Prod.mk.injEq] at h
  have hstopping := stopping_of_stopped h.2.2
  cases pc with
  | idle =>
      simp only [move, startPoll]
      split <;> rfl
  | inStarted =>
      simp only [move, afterStarted]
      split <;> rfl
  | outer =>
      simp only [move, pollWait, hstopping, Bool.true_eq_false, and_false, if_false]
      rfl
  | mailbox =>
      simp only [move, pollMailbox, Bool.false_eq_true, and_false, if_false]
      rfl
  | afterMailbox =>
      simp only [move, ContextFut.afterMailbox, hstopping, Bool.true_eq_false, and_false, if_false]
      rfl
  | items idx =>
      simp only [move, pollItems]
      split
      · rfl
      · rw [if_pos hstopping]
        rfl
  | endItems =>
      simp only [move, ContextFut.endItems]
      split <;> rfl
  | check =>
      have halive : f.alive = false := by simp [alive, h]
      simp only [move, ContextFut.check, h.1, halive, if_true, Bool.false_eq_true, if_false]
      rfl
  | inStopping requested =>
      cases requested with
      | false => rfl
      | true => cases hpc
  | creating | inWait | inMessage | inItem idx | inStopped | done | inRestarting | finished =>
      cases hpc

theorem asking_advance (h : s.Asking) : (s.step (.advance false)).Asking := by
  refine ⟨?_, asking_move h.mode h.asking⟩
  have hasking := h.asking
  by_cases hstopping : s.pc = .inStopping false
  · simp only [step, hstopping, move, afterStopping, Bool.false_eq_true, if_false]
    exact h.mode
  · refine (mode_move s.fut false ?_ ?_).trans h.mode
    · intro hpc
      rw [hpc] at hasking
      cases hasking
    · intro requested hpc
      cases requested with
      | false => exact hstopping hpc
      | true =>
          rw [hpc] at hasking
          cases hasking

theorem endless_run (h : s.Circling ∨ s.Asking) (n : ℕ) :
    (run step s (List.replicate n (.advance false))).pc ≠ .done := by
  induction n generalizing s with
  | zero =>
      intro hpc
      rw [List.replicate_zero, run_nil] at hpc
      rcases h with h | h
      · have := h.looping
        rw [hpc] at this
        cases this
      · have := h.asking
        rw [hpc] at this
        cases this
  | succ n ih =>
      rw [List.replicate_succ, run_cons]
      exact ih (h.imp circling_advance asking_advance)

/-- A step that breaks the condition is the last before a terminated context that never returns. -/
theorem endless_of_not_stopsCleanly {answer : Bool} (h : s.Terminable)
    (hnot : ¬ s.StopsCleanly (.advance answer)) :
    Since .terminate (· = .restarting) s.log ∧
      ∀ n, (run step s (.advance answer :: List.replicate n (.advance false))).pc ≠ .done := by
  simp only [StopsCleanly, Classical.not_imp, not_and_or, not_or] at hnot
  obtain ⟨hstopped, hplace⟩ := hnot
  have hterminated := h.alone hstopped
  rcases hplace with ⟨hpc, hcanceled, hpresent⟩ | ⟨hpc, hanswer⟩
  · refine ⟨h.marked hstopped (by rw [hpc]; rfl), fun n => endless_run (Or.inl ?_) n⟩
    exact circling_advance ⟨hterminated, hcanceled, hpresent, by rw [hpc]; rfl⟩
  · refine ⟨h.marked hstopped (by rw [hpc]; rfl), fun n => endless_run (Or.inr ?_) n⟩
    have hmode : mode s.fut = (false, false, true) := hterminated
    simp only [mode, Prod.mk.injEq] at hmode
    simp only [step, hpc, move, afterStopping, hanswer, if_true]
    exact ⟨by simp [mode, setFlags, hmode], rfl⟩

end Endless

section Protocol

theorem flagged_new (connected : Bool) : (new connected).Flagged := by
  refine ⟨?_, ?_, Or.inl rfl⟩ <;> rintro ⟨before, after, heq, -⟩ <;> simp [new] at heq

theorem stopHeld_run (connected : Bool) (as : List ContextAction) :
    (run step (new connected) as).StopHeld := by
  have hstart : (new connected).StopHeld ∧ (new connected).Flagged :=
    ⟨preceded_nil, flagged_new connected⟩
  exact (invariant_run_of_mem (I := fun s : ContextRun => s.StopHeld ∧ s.Flagged)
    (fun _ _ _ hs => ⟨stopHeld_step hs.1 hs.2, flagged_step hs.2⟩) hstart).1

theorem terminable_run {connected : Bool} {as : List ContextAction}
    (h : Admissible step StopsCleanly (new connected) as) :
    (run step (new connected) as).Terminable :=
  invariant_run (fun _ _ => terminable_step)
    ⟨fun hs => absurd hs Bool.false_ne_true, fun hs => absurd hs Bool.false_ne_true⟩ h

theorem rank_le_of_callback (f : ContextFut) {pc : ContextPc} (h : pc.callback = true) :
    rank f pc ≤ 15 := by
  cases pc <;> first | exact Nat.le_of_ble_eq_true rfl | cases h

theorem terminateHonoured_run {connected : Bool} {as : List ContextAction}
    (h : Admissible step StopsCleanly (new connected) as) : TerminateHonoured 15 connected as := by
  rintro before after rfl hpc hbound
  obtain ⟨-, -, hafter⟩ := admissible_append.mp h
  have hrun : run step (new connected) (before ++ [.call .terminate]) =
      (run step (new connected) before).step (.call .terminate) := by
    rw [run_append, run_cons, run_nil]
  rw [hrun]
  generalize run step (new connected) before = s at hpc hafter
  have hstep : s.step (.call .terminate) =
      ⟨s.fut.withParts s.fut.parts.terminate, s.pc, s.log ++ [.terminate]⟩ := by
    simp [step, hpc, withParts, ContextOp.apply, ContextOp.events]
  refine terminated_returnsReady ?_ ?_ hafter ?_
  · rw [hstep]
    rfl
  · rw [hstep]
    intro hfinished
    simp only at hfinished
    rw [hfinished] at hpc
    cases hpc
  · rw [hstep]
    exact (rank_le_of_callback _ hpc).trans hbound

/-- A stop holds back all work in every run. Where a terminated context stops cleanly, it returns
within fifteen moves of the call of `terminate`, after one call of `stopped` and without work. A
step that breaks the condition can be followed by a context that never returns. -/
theorem stop_protocol (connected : Bool) (as : List ContextAction) :
    (run step (new connected) as).StopHeld ∧
    (Admissible step StopsCleanly (new connected) as → TerminateHonoured 15 connected as) ∧
    (Admissible step StopsCleanly (new connected) as → ∀ answer,
      ¬ (run step (new connected) as).StopsCleanly (.advance answer) →
        Since .terminate (· = .restarting) (run step (new connected) as).log ∧
          ∀ n, (run step (run step (new connected) as)
            (.advance answer :: List.replicate n (.advance false))).pc ≠ .done) :=
  ⟨stopHeld_run connected as, terminateHonoured_run, fun h _ hnot =>
    endless_of_not_stopsCleanly (terminable_run h) hnot⟩

/-- A message is being handled while one future is there. -/
def handling : List ContextAction :=
  [.call .spawn, .advance true, .advance true, .advance true, .advance true, .advance true]

theorem stop_protocol_handling :
    (run step (new true) handling).pc.callback = true ∧
      (run step (new true) (handling ++ [.call .terminate])).ReturnsReady
        (List.replicate 15 (.advance true)) := by
  have hpc : (run step (new true) handling).pc.callback = true := by decide +kernel
  have hclean : Admissible step StopsCleanly (new true)
      (handling ++ .call .terminate :: List.replicate 15 (.advance true)) := by decide +kernel
  exact ⟨hpc, (stop_protocol true _).2.1 hclean handling _ rfl hpc (by decide)⟩

/-- The message handler has cancelled the future. -/
def canceling : List ContextAction := handling ++ [.call (.cancelFuture 1)]

theorem circling_canceling :
    (run step (new true) (canceling ++ [.call .terminate, .advance false])).Circling :=
  ⟨rfl, by decide +kernel, by decide +kernel, by decide +kernel⟩

theorem not_stop_protocol :
    ¬ ∃ bound, ∀ (connected : Bool) (as : List ContextAction),
      (run step (new connected) as).StopHeld ∧ TerminateHonoured bound connected as := by
  rintro ⟨bound, h⟩
  have hbound : bound ≤ (List.replicate bound (ContextAction.advance false)).countP isAdvance := by
    simp [List.countP_replicate, isAdvance]
  obtain ⟨n, -, hdone, -⟩ := (h true (canceling ++ .call .terminate :: List.replicate bound
    (.advance false))).2 canceling _ rfl (by decide +kernel) hbound
  rw [List.take_replicate] at hdone
  cases hn : min n bound with
  | zero =>
      rw [hn] at hdone
      revert hdone
      decide +kernel
  | succ m =>
      rw [hn, List.replicate_succ, run_cons] at hdone
      refine endless_run (Or.inl ?_) m hdone
      have hcircling := circling_canceling
      rwa [← List.singleton_append, ← List.append_assoc, run_append] at hcircling

end Protocol

end ActixPura.ContextRun
