import ActixPura.ContextMoves

/-!
# Cancellations across restarts

A restart gives the handles out anew and removes the futures, but `ContextParts::restart` leaves the
queue of cancellations as it is. A cancellation that a stop kept from being carried out is carried
out after the restart, on whatever future has its handle by then. Where the queue is empty at every
restart, no cancellation outlives the futures it was meant for.
-/

namespace ActixPura.ContextRun

open Runs ContextFut

/-- No future was removed by a cancellation from before the restart it was spawned after. -/
def Isolated (s : ContextRun) : Prop :=
  ∀ item c, .removed item c ∈ s.log → ¬ c.epoch < item.epoch

/-- A cancelled handle is one that `spawn` has returned. -/
def CancelsObtained (s : ContextRun) : ContextAction → Prop
  | .call (.cancelFuture handle) => 1 ≤ handle ∧ handle ≤ s.fut.parts.lastHandle
  | _ => True

/-- The supervisor restarts the context only with an empty queue of cancellations. -/
def RestartsDrained (s : ContextRun) : ContextAction → Prop
  | .advance _ => s.pc = .done → s.fut.connected = true → s.fut.parts.canceled = []
  | _ => True

instance decidableCancelsObtained (s : ContextRun) : ∀ a, Decidable (s.CancelsObtained a)
  | .call (.cancelFuture handle) =>
    inferInstanceAs (Decidable (1 ≤ handle ∧ handle ≤ s.fut.parts.lastHandle))
  | .call .spawn | .call .wait | .call .stop | .call .terminate | .call .setMailboxCapacity
  | .connect _ | .advance _ => isTrue trivial

instance decidableRestartsDrained (s : ContextRun) (a : ContextAction) :
    Decidable (s.RestartsDrained a) := by
  unfold RestartsDrained
  split <;> infer_instance

/-- Futures and cancellations are of the present epoch. -/
structure Current (f : ContextFut) : Prop where
  items : ∀ item ∈ f.present, item.epoch = f.parts.epoch
  canceled : ∀ c ∈ f.parts.canceled, c.epoch = f.parts.epoch

theorem Current.frame {f f' : ContextFut} (h : Current f) (hframe : Frame f f') : Current f' where
  items item hitem := by
    rw [hframe.epoch]
    exact h.items item (hframe.present.subset hitem)
  canceled c hc := by
    rw [hframe.epoch]
    exact h.canceled c (hframe.canceled hc)

theorem Current.apply {f : ContextFut} (h : Current f) (op : ContextOp) :
    Current (f.withParts (op.apply f.parts)) where
  items item hitem := by
    simp only [withParts, epoch_apply]
    rcases mem_present_apply.mp hitem with hitem | ⟨-, rfl⟩
    · exact h.items item hitem
    · rfl
  canceled c hc := by
    simp only [withParts, epoch_apply]
    rcases mem_canceled_apply.mp hc with hc | ⟨handle, -, rfl⟩
    · exact h.canceled c hc
    · rfl

theorem Current.restart {f : ContextFut} (h : f.parts.canceled = []) : Current f.restart where
  items _ hitem := by simp [present, ContextFut.restart, ContextParts.restart] at hitem
  canceled c hc := by simp [ContextFut.restart, ContextParts.restart, h] at hc

theorem removed_notMem_events (op : ContextOp) (p : ContextParts) (item : ContextItem)
    (c : Cancellation) : .removed item c ∉ op.events p := by
  cases op <;> simp [ContextOp.events]

theorem isolated_step {s : ContextRun} {a : ContextAction} (h : Current s.fut ∧ s.Isolated)
    (hok : s.RestartsDrained a) : Current (s.step a).fut ∧ (s.step a).Isolated := by
  obtain ⟨hcurrent, hisolated⟩ := h
  cases a with
  | connect connected => exact ⟨⟨hcurrent.items, hcurrent.canceled⟩, hisolated⟩
  | call op =>
      simp only [step]
      split
      · refine ⟨hcurrent.apply op, fun item c hmem => ?_⟩
        rcases List.mem_append.mp hmem with hmem | hmem
        · exact hisolated item c hmem
        · exact absurd hmem (removed_notMem_events op _ item c)
      · exact ⟨hcurrent, hisolated⟩
  | advance answer =>
      refine ⟨?_, fun item c hmem => ?_⟩
      · by_cases hpc : s.pc = .done
        · simp only [step, hpc, move, supervise]
          split
          case isTrue hconnected => exact Current.restart (hok hpc hconnected)
          case isFalse => exact hcurrent
        · exact hcurrent.frame (move_frame s.fut answer hpc)
      · rcases List.mem_append.mp hmem with hmem | hmem
        · exact hisolated item c hmem
        · obtain ⟨hitem, hc⟩ := visible_of_mem_move hmem
          rw [hcurrent.items item hitem, hcurrent.canceled c hc]
          exact lt_irrefl _

theorem isolated_run {connected : Bool} {as : List ContextAction}
    (h : Admissible step RestartsDrained (new connected) as) :
    (run step (new connected) as).Isolated := by
  have hstart : Current (new connected).fut ∧ (new connected).Isolated :=
    ⟨⟨by simp [new, ContextFut.new, ContextParts.new, present],
      by simp [new, ContextFut.new, ContextParts.new]⟩, by simp [new, Isolated]⟩
  exact (invariant_run (I := fun s => Current s.fut ∧ s.Isolated)
    (fun _ _ hs hok => isolated_step hs hok) hstart h).2

section Queued

/-- Queued handles are handles of `spawn`, and not of an epoch to come. -/
def Sensible (f : ContextFut) : Prop :=
  ∀ c ∈ f.parts.canceled, 1 ≤ c.handle ∧ c.epoch ≤ f.parts.epoch

theorem sensible_step {s : ContextRun} {a : ContextAction} (h : Sensible s.fut)
    (hok : s.CancelsObtained a) : Sensible (s.step a).fut := by
  cases a with
  | connect connected => exact h
  | call op =>
      simp only [step]
      split
      · intro c hc
        simp only [epoch_apply]
        rcases mem_canceled_apply.mp hc with hc | ⟨handle, rfl, rfl⟩
        · exact h c hc
        · exact ⟨hok.1, le_rfl⟩
      · exact h
  | advance answer =>
      by_cases hpc : s.pc = .done
      · simp only [step, hpc, move, supervise]
        split
        · exact fun c hc => ⟨(h c hc).1, (h c hc).2.trans (Nat.le_succ _)⟩
        · exact h
      · have hframe := move_frame s.fut answer hpc
        intro c hc
        simp only [step, hframe.epoch]
        exact h c (hframe.canceled hc)

/-- The context after some calls of `spawn` in `restarting`. -/
structure Respawned (f : ContextFut) (count : ℕ) (s : ContextRun) : Prop where
  pc : s.pc = .inRestarting
  flags : s.fut.parts.flags = .onlyRunning
  canceled : s.fut.parts.canceled = f.parts.canceled
  epoch : s.fut.parts.epoch = f.parts.epoch + 1
  lastHandle : s.fut.parts.lastHandle = count
  numbered : s.fut.Numbered
  last : 1 ≤ count → ⟨count, f.parts.epoch + 1⟩ ∈ s.fut.present

theorem Respawned.spawn {f : ContextFut} {count : ℕ} {s : ContextRun} (h : Respawned f count s) :
    Respawned f (count + 1) (s.step (.call .spawn)) := by
  have hstep : s.step (.call .spawn) = ⟨s.fut.withParts s.fut.parts.spawn, s.pc, s.log ++ []⟩ := by
    simp [step, h.pc, ContextPc.callback, withParts, ContextOp.apply, ContextOp.events]
  rw [hstep]
  refine ⟨h.pc, h.flags, h.canceled, h.epoch, congrArg (· + 1) h.lastHandle,
    h.numbered.spawn, fun _ => ?_⟩
  rw [present_spawn, h.lastHandle, h.epoch]
  exact List.mem_append_right _ List.mem_cons_self

theorem respawned_run {f : ContextFut} {s : ContextRun} (count : ℕ) (h : Respawned f 0 s) :
    Respawned f count (run step s (List.replicate count (.call .spawn))) := by
  induction count with
  | zero => exact h
  | succ count ih =>
      rw [List.replicate_succ', run_append]
      exact ih.spawn

theorem admissible_spawns (s : ContextRun) (count : ℕ) :
    Admissible step CancelsObtained s (List.replicate count (.call .spawn)) := by
  induction count generalizing s with
  | zero => trivial
  | succ count ih => exact ⟨trivial, ih _⟩

theorem respawned_restart {s : ContextRun} (hpc : s.pc = .done)
    (hconnected : s.fut.connected = true) (answer : Bool) :
    Respawned s.fut 0 (s.step (.advance answer)) := by
  have hstep : s.step (.advance answer) =
      ⟨s.fut.restart, .inRestarting, s.log ++ [.restarting]⟩ := by
    simp [step, hpc, move, supervise, hconnected]
  rw [hstep]
  exact ⟨rfl, rfl, rfl, rfl, rfl, numbered_of_present_nil (present_restart _), by simp⟩

/-- The first poll after the restart ends `started` with a clean-up. -/
theorem Respawned.removed {f : ContextFut} {count : ℕ} {s : ContextRun}
    (h : Respawned f count s) {c : Cancellation} (hc : c ∈ f.parts.canceled)
    (hcount : c.handle = count) (hpos : 1 ≤ count) :
    ∃ c' ∈ f.parts.canceled, .removed ⟨count, f.parts.epoch + 1⟩ c' ∈
      (run step s [.advance true, .advance true, .advance true]).log := by
  obtain ⟨fut, pc, log⟩ := s
  obtain ⟨rfl, hflags, hcanceled, -, -, hnumbered, hlast⟩ := h
  simp only at hflags hcanceled hnumbered hlast
  have hstarted : fut.parts.flags.started = false := by rw [hflags]; rfl
  let started := fut.setFlags { fut.parts.flags with started := true }
  have hbegun : Frame fut started := Frame.setFlags id
  have hframe : Frame fut started.merge := hbegun.trans (Frame.merge started)
  have hqueued : started.merge.parts.canceled = f.parts.canceled := hcanceled
  have hpresent : (⟨count, f.parts.epoch + 1⟩ : ContextItem) ∈ started.merge.present := by
    have := hlast hpos
    simpa [present, started, ContextFut.merge, setFlags] using this
  have hmodified : started.modified = true := by
    have hne : f.parts.canceled ≠ [] := List.ne_nil_of_mem hc
    simp [modified, started, setFlags, hcanceled, hne]
  obtain ⟨c', hc', hremoved⟩ := removed_of_canceled (hframe.distinct hnumbered.distinct) hpresent
    (hqueued ▸ hc) hcount.symm
  refine ⟨c', hqueued ▸ hc', ?_⟩
  have hmove : (started.move true .inStarted).events = started.merge.cleanCanceledHandle.2 := by
    simp [move, afterStarted, hmodified]
  have hrun : (run step ⟨fut, .inRestarting, log⟩
      [.advance true, .advance true, .advance true]).log =
      log ++ [.started] ++ started.merge.cleanCanceledHandle.2 := by
    simp only [run_cons, run_nil, step, move, startPoll, hstarted]
    rw [← hmove]
    simp [started, move]
  rw [hrun]
  exact List.mem_append_right _ hremoved

/-- A restart with a queued cancellation can go wrong: `restarting` spawns until it reaches the
queued handle. -/
theorem exists_not_isolated {s : ContextRun} (h : Sensible s.fut) (hpc : s.pc = .done)
    (hconnected : s.fut.connected = true) (hqueued : s.fut.parts.canceled ≠ []) :
    ∃ more, Admissible step CancelsObtained s more ∧ ¬ (run step s more).Isolated := by
  obtain ⟨c, hc⟩ := List.exists_mem_of_ne_nil _ hqueued
  refine ⟨.advance true :: (List.replicate c.handle (.call .spawn) ++
    [.advance true, .advance true, .advance true]), ⟨trivial, ?_⟩, fun hisolated => ?_⟩
  · exact admissible_append.mpr ⟨admissible_spawns _ _, trivial, trivial, trivial, trivial⟩
  · rw [run_cons, run_append] at hisolated
    have hrespawned := respawned_run c.handle (respawned_restart hpc hconnected true)
    obtain ⟨c', hc', hremoved⟩ := hrespawned.removed hc rfl (h c hc).1
    exact hisolated _ c' hremoved (Nat.lt_succ_of_le (h c' hc').2)

end Queued

/-- Where every restart finds the queue of cancellations empty, a cancellation from before a restart
never removes a future from after it. A restart that finds a cancellation queued can go on to a
removal of that kind. -/
theorem restart_isolation (connected : Bool) (as : List ContextAction) :
    (Admissible step RestartsDrained (new connected) as →
      (run step (new connected) as).Isolated) ∧
    (Admissible step CancelsObtained (new connected) as →
      (run step (new connected) as).pc = .done →
      (run step (new connected) as).fut.connected = true →
      (run step (new connected) as).fut.parts.canceled ≠ [] →
      ∃ more, Admissible step CancelsObtained (run step (new connected) as) more ∧
        ¬ (run step (run step (new connected) as) more).Isolated) := by
  refine ⟨isolated_run, fun hobtained => exists_not_isolated ?_⟩
  have hstart : Sensible (new connected).fut := by
    simp [Sensible, new, ContextFut.new, ContextParts.new]
  exact invariant_run (I := fun s : ContextRun => Sensible s.fut)
    (fun _ _ => sensible_step) hstart hobtained

/-- A future is spawned and, later, cancelled by a message handler. A second message stops the
context, which is restarted and spawns again. -/
def drainedRun : List ContextAction :=
  [.call .spawn, .advance true, .advance true, .advance true, .advance true, .advance false,
    .advance true, .advance true, .call (.cancelFuture 1), .advance false, .advance true,
    .advance true, .call .stop, .advance true, .advance true, .advance true, .advance true,
    .advance true, .advance true, .advance true, .advance true, .call .spawn, .advance true,
    .advance true, .advance true]

theorem restart_isolation_drainedRun :
    Admissible step RestartsDrained (new true) drainedRun ∧
      (run step (new true) drainedRun).Isolated :=
  have h : Admissible step RestartsDrained (new true) drainedRun := by decide +kernel
  ⟨h, (restart_isolation true drainedRun).1 h⟩

/-- The same with one message that cancels and stops. -/
def queuedRun : List ContextAction :=
  [.call .spawn, .advance true, .advance true, .advance true, .advance true, .advance true,
    .call (.cancelFuture 1), .call .stop, .advance true, .advance true, .advance true,
    .advance true, .advance true, .advance true, .advance true, .advance true, .advance true,
    .call .spawn, .advance true, .advance true, .advance true]

theorem not_restart_isolation :
    ¬ ∀ (connected : Bool) (as : List ContextAction),
      Admissible step CancelsObtained (new connected) as →
        (run step (new connected) as).Isolated := by
  intro h
  have hobtained : Admissible step CancelsObtained (new true) queuedRun := by decide +kernel
  have hremoved : .removed ⟨1, 1⟩ ⟨1, 0, 1⟩ ∈ (run step (new true) queuedRun).log := by
    decide +kernel
  exact h true queuedRun hobtained ⟨1, 1⟩ ⟨1, 0, 1⟩ hremoved (by decide)

end ActixPura.ContextRun
