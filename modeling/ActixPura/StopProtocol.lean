import ActixPura.ContextMoves

/-!
# Stopping and terminating

After `stop` the loop does no work until `stopping` has answered that the actor continues, and after
`terminate` none until a restart: both set a flag that the loop looks at before every message and
every future. A terminated context goes on to `stopped` in at most fifteen moves, whatever the
callbacks on the way do.

Two places keep it from there. The end of the item loop goes round as long as cancellations are
queued, and only discards them when no future is left; the exception it makes for a stopping context
does not cover a terminated one. And a call of `stopping` that terminates the context and continues
puts the running flag beside the stopped one, so that `stopping` is asked again and again.
-/

namespace ActixPura

open Runs

/-- A message is handled or a future is polled. -/
def ContextEvent.isWork : ContextEvent → Bool
  | .message | .waitPolled | .polled _ => true
  | _ => false

/-- `stopping` answers that the actor continues, or the context is restarted. -/
def ContextEvent.resumes : ContextEvent → Bool
  | .continued | .restarting => true
  | _ => false

namespace ContextRun

open ContextFut

section Barriers

/-- The history holds the mark and, after it, nothing that lifts it. -/
def Since (mark : ContextEvent) (lifts : ContextEvent → Bool) (es : List ContextEvent) : Prop :=
  ∃ before after, es = before ++ mark :: after ∧ ∀ e ∈ after, lifts e = false

theorem Since.of_append {mark : ContextEvent} {lifts : ContextEvent → Bool}
    {es xs : List ContextEvent} (h : Since mark lifts (es ++ xs)) :
    mark ∈ xs ∨ Since mark lifts es ∧ ∀ e ∈ xs, lifts e = false := by
  obtain ⟨before, after, heq, hafter⟩ := h
  rcases split_append heq with ⟨after', hes⟩ | ⟨between, -, hxs⟩
  · right
    rw [hes, List.append_assoc, List.cons_append, List.append_cancel_left_eq] at heq
    obtain rfl := (List.cons.inj heq).2
    refine ⟨⟨before, after', hes, fun e he => ?_⟩, fun e he => ?_⟩
    · exact hafter e (List.mem_append_left _ he)
    · exact hafter e (List.mem_append_right _ he)
  · left
    simp [hxs]

theorem Since.append {mark : ContextEvent} {lifts : ContextEvent → Bool}
    {es xs : List ContextEvent} (h : Since mark lifts es) (hxs : ∀ e ∈ xs, lifts e = false) :
    Since mark lifts (es ++ xs) := by
  obtain ⟨before, after, rfl, hafter⟩ := h
  refine ⟨before, after ++ xs, by simp, fun e he => ?_⟩
  exact (List.mem_append.mp he).elim (hafter e) (hxs e)

theorem since_concat (mark : ContextEvent) (lifts : ContextEvent → Bool)
    (es : List ContextEvent) : Since mark lifts (es ++ [mark]) :=
  ⟨es, [], rfl, by simp⟩

/-- No work is done after `stop` until the actor continues, or after `terminate` until a restart. -/
def StopHeld (s : ContextRun) : Prop :=
  Preceded (fun before e => e.isWork = true →
    ¬ Since .stop ContextEvent.resumes before ∧ ¬ Since .terminate (· = .restarting) before) s.log

/-- The flags remember what was asked for. -/
structure Flagged (s : ContextRun) : Prop where
  stop : Since .stop ContextEvent.resumes s.log → s.fut.stopping = true
  terminate : Since .terminate (· = .restarting) s.log → s.fut.parts.flags.stopped = true
  some : s.fut.parts.flags.running = true ∨ s.fut.stopping = true

variable {s : ContextRun}

theorem stopping_of_stopped {f : ContextFut} (h : f.parts.flags.stopped = true) :
    f.stopping = true := by
  simp [stopping, ContextFlags.isStopping, h]

theorem stopping_apply {f : ContextFut} (op : ContextOp) (h : f.stopping = true) :
    (f.withParts (op.apply f.parts)).stopping = true := by
  cases op with
  | spawn | wait | setMailboxCapacity | cancelFuture handle => exact h
  | terminate => rfl
  | stop =>
      simp only [ContextOp.apply, ContextParts.stop]
      split
      · simp [stopping, withParts, ContextFlags.isStopping]
      · exact h

theorem flagged_call {op : ContextOp} (h : s.Flagged) (hpc : s.pc.callback = true) :
    (s.step (.call op)).Flagged := by
  have hstep : s.step (.call op) =
      ⟨s.fut.withParts (op.apply s.fut.parts), s.pc, s.log ++ op.events s.fut.parts⟩ := by
    simp [step, hpc, withParts]
  rw [hstep]
  refine ⟨fun hsince => ?_, fun hsince => ?_, ?_⟩
  · rcases hsince.of_append with hmem | ⟨hsince, -⟩
    · cases op with
      | stop =>
          simp only [ContextOp.apply, ContextParts.stop]
          split
          case isTrue => simp [stopping, withParts, ContextFlags.isStopping]
          case isFalse hrunning => exact h.some.resolve_left hrunning
      | spawn | wait | setMailboxCapacity | cancelFuture handle | terminate =>
          simp [ContextOp.events] at hmem
    · exact stopping_apply op (h.stop hsince)
  · rcases hsince.of_append with hmem | ⟨hsince, -⟩
    · cases op with
      | terminate => rfl
      | spawn | wait | setMailboxCapacity | cancelFuture handle | stop =>
          simp [ContextOp.events] at hmem
    · exact stopped_apply _ op (h.terminate hsince)
  · cases op with
    | spawn | wait | setMailboxCapacity | cancelFuture handle => exact h.some
    | terminate => exact Or.inr rfl
    | stop =>
        simp only [ContextOp.apply, ContextParts.stop]
        split
        case isTrue =>
          right
          simp [stopping, withParts, ContextFlags.isStopping]
        case isFalse => exact h.some

end Barriers

section Modes

/-- Whether the context runs, is stopping or has stopped. -/
def mode (f : ContextFut) : Bool × Bool × Bool :=
  (f.parts.flags.running, f.parts.flags.stopping, f.parts.flags.stopped)

theorem mode_clean (f : ContextFut) : mode f.cleanCanceledHandle.1 = mode f := by
  rw [mode, clean_parts]
  rfl

theorem mode_mergeIfWaiting (f : ContextFut) : mode f.mergeIfWaiting = mode f := by
  unfold mergeIfWaiting
  split <;> rfl

theorem mode_truncateCanceled (f : ContextFut) : mode f.truncateCanceled = mode f := by
  unfold truncateCanceled
  split <;> rfl

/-- Only an answer of `stopping` and a restart change the mode. -/
theorem mode_move (f : ContextFut) (answer : Bool) {pc : ContextPc} (hdone : pc ≠ .done)
    (hstopping : ∀ requested, pc ≠ .inStopping requested) :
    mode (f.move answer pc).fut = mode f := by
  cases pc with
  | creating | inMessage | inStopped | inRestarting | finished => rfl
  | idle =>
      simp only [move, startPoll]
      split <;> rfl
  | inStarted =>
      simp only [move, afterStarted]
      split
      · exact mode_clean _
      · rfl
  | outer =>
      simp only [move, pollWait]
      split <;> rfl
  | inWait =>
      simp only [move, afterWait]
      split <;> rfl
  | mailbox =>
      simp only [move, pollMailbox]
      split <;> rfl
  | afterMailbox =>
      simp only [move, ContextFut.afterMailbox]
      split <;> rfl
  | items idx =>
      simp only [move, pollItems]
      split
      · rfl
      · split <;> rfl
  | inItem idx =>
      simp only [move]
      split
      · rw [afterReady_fut, mode_mergeIfWaiting]
        rfl
      · simp only [afterPending]
        split
        · rw [mode_clean, mode_mergeIfWaiting]
        · split <;> exact mode_mergeIfWaiting f
  | endItems =>
      simp only [move, ContextFut.endItems]
      split
      · exact mode_truncateCanceled _
      · rfl
  | check => rw [move, check_fut]
  | inStopping requested => exact absurd rfl (hstopping requested)
  | done => exact absurd rfl hdone

theorem stopping_eq_of_mode {f f' : ContextFut} (h : mode f' = mode f) :
    f'.stopping = f.stopping := by
  simp only [mode, Prod.mk.injEq] at h
  simp only [stopping, ContextFlags.isStopping, h]

/-- A move keeps a stop that is under way, or is seen to lift it. -/
theorem stopping_move {f : ContextFut} {answer : Bool} {pc : ContextPc}
    (h : f.stopping = true) : (f.move answer pc).fut.stopping = true ∨
      ∃ e ∈ (f.move answer pc).events, e.resumes = true := by
  by_cases hdone : pc = .done
  · subst hdone
    simp only [move, supervise]
    split
    · exact Or.inr ⟨.restarting, by simp, rfl⟩
    · exact Or.inl h
  · by_cases hstopping : ∃ requested, pc = .inStopping requested
    · obtain ⟨requested, rfl⟩ := hstopping
      simp only [move, afterStopping]
      split
      · exact Or.inl rfl
      · split
        · exact Or.inr ⟨.continued, by simp, rfl⟩
        · exact Or.inl h
    · rw [not_exists] at hstopping
      exact Or.inl ((stopping_eq_of_mode (mode_move f answer hdone hstopping)).trans h)

/-- Every context runs or is stopping. -/
theorem some_move {f : ContextFut} {answer : Bool} {pc : ContextPc}
    (h : f.parts.flags.running = true ∨ f.stopping = true) :
    (f.move answer pc).fut.parts.flags.running = true ∨
      (f.move answer pc).fut.stopping = true := by
  by_cases hdone : pc = .done
  · subst hdone
    simp only [move, supervise]
    split
    · exact Or.inl rfl
    · exact h
  · by_cases hstopping : ∃ requested, pc = .inStopping requested
    · obtain ⟨requested, rfl⟩ := hstopping
      simp only [move, afterStopping]
      split
      · exact Or.inr rfl
      · split
        · exact Or.inl rfl
        · exact h
    · rw [not_exists] at hstopping
      have hmode := mode_move f answer hdone hstopping
      rw [stopping_eq_of_mode hmode]
      simp only [mode, Prod.mk.injEq] at hmode
      rwa [hmode.1]

variable {s : ContextRun}

theorem flagged_advance {answer : Bool} (h : s.Flagged) : (s.step (.advance answer)).Flagged := by
  refine ⟨fun hsince => ?_, fun hsince => ?_, some_move h.some⟩
  · rcases hsince.of_append with hmem | ⟨hsince, hlifts⟩
    · exact absurd hmem fun hmem => visible_of_mem_move hmem
    · rcases stopping_move (h.stop hsince) with hstopping | ⟨e, he, hresumes⟩
      · exact hstopping
      · rw [hlifts e he] at hresumes
        cases hresumes
  · rcases hsince.of_append with hmem | ⟨hsince, hlifts⟩
    · exact absurd hmem fun hmem => visible_of_mem_move hmem
    · have hstopped := h.terminate hsince
      by_cases hpc : s.pc = .done
      · simp only [step, hpc, move, supervise] at hlifts ⊢
        split
        case isTrue hconnected => simp [hconnected] at hlifts
        case isFalse => exact hstopped
      · exact (move_frame s.fut answer hpc).stopped hstopped

theorem flagged_step {a : ContextAction} (h : s.Flagged) : (s.step a).Flagged := by
  cases a with
  | connect connected => exact ⟨h.stop, h.terminate, h.some⟩
  | advance answer => exact flagged_advance h
  | call op =>
      by_cases hpc : s.pc.callback = true
      · exact flagged_call h hpc
      · simpa [step, hpc] using h

theorem not_stopping_of_isWork {f : ContextFut} {pc : ContextPc} {e : ContextEvent}
    (h : f.Visible pc e) (he : e.isWork = true) : f.stopping = false := by
  cases e with
  | message | waitPolled => exact h
  | polled item =>
      obtain ⟨-, -, -, hstopping⟩ := h
      exact hstopping
  | started | canceled c | removed item c | stop | terminate | continued | stopped | pending | ready
  | restarting => cases he

theorem stopHeld_append {events : List ContextEvent} (h : s.StopHeld) (hflagged : s.Flagged)
    (hwork : ∀ e ∈ events, e.isWork = true →
      s.fut.stopping = false ∧ .stop ∉ events ∧ .terminate ∉ events) :
    StopHeld ⟨s.fut, s.pc, s.log ++ events⟩ := by
  refine preceded_append.mpr ⟨h, ?_⟩
  intro before e after hsplit he
  obtain ⟨hstopping, hstop, hterminate⟩ := hwork e (by simp [hsplit]) he
  have hbefore : ∀ e', e' ∉ events → e' ∉ before := by
    intro e' hnot hmem
    exact hnot (by simp [hsplit, hmem])
  refine ⟨fun hsince => ?_, fun hsince => ?_⟩
  · obtain ⟨hsince, -⟩ := hsince.of_append.resolve_left (hbefore _ hstop)
    rw [hflagged.stop hsince] at hstopping
    cases hstopping
  · obtain ⟨hsince, -⟩ := hsince.of_append.resolve_left (hbefore _ hterminate)
    rw [stopping_of_stopped (hflagged.terminate hsince)] at hstopping
    cases hstopping

theorem stopHeld_step {a : ContextAction} (h : s.StopHeld) (hflagged : s.Flagged) :
    (s.step a).StopHeld := by
  cases a with
  | connect connected => exact h
  | call op =>
      simp only [step]
      split
      · refine stopHeld_append h hflagged fun e he hwork => ?_
        cases op <;> simp [ContextOp.events] at he <;> subst he <;> cases hwork
      · exact h
  | advance answer =>
      refine stopHeld_append h hflagged fun e he hwork => ?_
      exact ⟨not_stopping_of_isWork (visible_of_mem_move he) hwork,
        fun hmem => visible_of_mem_move hmem, fun hmem => visible_of_mem_move hmem⟩

end Modes

end ContextRun

end ActixPura
