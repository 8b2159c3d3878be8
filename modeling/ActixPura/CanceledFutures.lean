import ActixPura.ContextMoves

/-!
# Cancelled futures

`cancel_future` only queues the handle. The clean-up runs after `started` and after a poll of a
spawned future that is pending, and nowhere else on the way to the futures. So a cancellation is in
time when it is issued before or in `started`, or by a spawned future that then is pending. One that
is issued by a message handler, a wait future, `stopping` or a future that then is ready leaves the
cancelled future in the list, and its turn may come before the next clean-up.
-/

namespace ActixPura.ContextRun

open Runs ContextFut

/-- No future is polled after a cancellation that names it. -/
def NeverPolledAgain (s : ContextRun) : Prop :=
  Preceded (fun before e => ∀ item, e = .polled item → ∀ c, .canceled c ∈ before → ¬ c.Names item)
    s.log

/-- The callbacks a clean-up can follow before the next future is polled. -/
def cleansUp : ContextPc → Bool
  | .creating | .inStarted | .inRestarting | .inItem _ => true
  | _ => false

/-- Outside the callbacks a clean-up follows, a running context is asked to cancel no future that is
present. A spawned future is ready only when no other present future has its cancellation queued. -/
def CancelsInTime (s : ContextRun) : ContextAction → Prop
  | .call (.cancelFuture handle) =>
    cleansUp s.pc = true ∨ s.fut.parts.flags.stopped = true ∨
      ∀ item ∈ s.fut.present, item.handle ≠ handle
  | .advance true =>
    match s.pc with
    | .inItem idx =>
      s.fut.parts.flags.stopped = true ∨
        ∀ c ∈ s.fut.parts.canceled, ∀ item ∈ s.fut.items.eraseIdx idx ++ s.fut.parts.items,
          ¬ c.Names item
    | _ => True
  | _ => True

instance decidableCancelsInTime (s : ContextRun) (a : ContextAction) :
    Decidable (s.CancelsInTime a) := by
  unfold CancelsInTime
  split
  · infer_instance
  · split <;> infer_instance
  · infer_instance

/-- The loop takes up no future whose cancellation is queued. -/
def TakesUncanceled (s : ContextRun) : ContextAction → Prop
  | .advance _ => ∀ idx, s.pc = .items idx → s.fut.stopping = false →
    ∀ item, s.fut.items[idx]? = some item → ∀ c ∈ s.fut.parts.canceled, ¬ c.Names item
  | _ => True

/-- A clean-up is still to come before a future is polled. -/
def BeforeCleanUp (s : ContextRun) : Prop :=
  cleansUp s.pc = true ∨ s.pc = .idle ∧ s.fut.parts.flags.started = false

/-- No present future has its cancellation queued. -/
def Clear (f : ContextFut) : Prop := ∀ c ∈ f.parts.canceled, ∀ item ∈ f.present, ¬ c.Names item

theorem Clear.frame {f f' : ContextFut} (h : Clear f) (hframe : Frame f f') : Clear f' :=
  fun c hc item hitem => h c (hframe.canceled hc) item (hframe.present.subset hitem)

theorem clear_of_canceled_nil {f : ContextFut} (h : f.parts.canceled = []) : Clear f := by
  intro c hc
  simp [h] at hc

/-- How the queue stands to the history: a cancellation that names a present future is queued. -/
structure Accounted (s : ContextRun) : Prop where
  numbered : s.fut.Numbered
  given : ∀ c, .canceled c ∈ s.log → c.epoch ≤ s.fut.parts.epoch ∧
    (c.epoch = s.fut.parts.epoch → c.given ≤ s.fut.parts.lastHandle)
  issued : ∀ c ∈ s.fut.parts.canceled, .canceled c ∈ s.log
  queued : ∀ c, .canceled c ∈ s.log → ∀ item ∈ s.fut.present, c.Names item →
    c ∈ s.fut.parts.canceled

structure InTime (s : ContextRun) : Prop where
  accounted : s.Accounted
  unstarted : s.pc = .creating ∨ s.pc = .inRestarting → s.fut.parts.flags.started = false
  clear : s.BeforeCleanUp ∨ s.fut.parts.flags.stopped = true ∨ Clear s.fut

section Histories

theorem canceled_notMem_move {f : ContextFut} {answer : Bool} {pc : ContextPc} {c : Cancellation} :
    .canceled c ∉ (f.move answer pc).events :=
  fun h => visible_of_mem_move h

theorem canceled_mem_step_advance {s : ContextRun} {answer : Bool} {c : Cancellation} :
    .canceled c ∈ (s.step (.advance answer)).log ↔ .canceled c ∈ s.log := by
  simp only [step, List.mem_append]
  exact ⟨fun h => h.resolve_right canceled_notMem_move, Or.inl⟩

theorem canceled_mem_events {op : ContextOp} {p : ContextParts} {c : Cancellation} :
    .canceled c ∈ op.events p ↔
      ∃ handle, op = .cancelFuture handle ∧ c = p.cancellation handle := by
  cases op <;> simp [ContextOp.events]

theorem polled_notMem_events {op : ContextOp} {p : ContextParts} {item : ContextItem} :
    .polled item ∉ op.events p := by
  cases op <;> simp [ContextOp.events]

end Histories

section Accounting

variable {s : ContextRun}

theorem Accounted.frame {answer : Bool} (h : s.Accounted) (hpc : s.pc ≠ .done) :
    (s.step (.advance answer)).Accounted := by
  have hframe := move_frame s.fut answer hpc
  refine ⟨h.numbered.frame hframe, fun c hc => ?_, fun c hc => ?_, fun c hc item hitem hnames => ?_⟩
  · rw [canceled_mem_step_advance] at hc
    simp only [step, hframe.epoch, hframe.lastHandle]
    exact h.given c hc
  · rw [canceled_mem_step_advance]
    exact h.issued c (hframe.canceled hc)
  · rw [canceled_mem_step_advance] at hc
    have hqueued := h.queued c hc item (hframe.present.subset hitem) hnames
    rcases hframe.reaped h.numbered.distinct c hqueued with hkept | hgone
    · exact hkept
    · exact absurd hnames.1 (hgone item hitem)

theorem Accounted.supervise {answer : Bool} (h : s.Accounted) (hpc : s.pc = .done) :
    (s.step (.advance answer)).Accounted := by
  have hlog : ∀ c, .canceled c ∈ (s.step (.advance answer)).log ↔ .canceled c ∈ s.log :=
    fun c => canceled_mem_step_advance
  by_cases hconnected : s.fut.connected = true
  · have hfut : (s.step (.advance answer)).fut = s.fut.restart := by
      simp [step, hpc, move, ContextFut.supervise, hconnected]
    refine ⟨?_, fun c hc => ?_, fun c hc => ?_, fun c hc item hitem => ?_⟩
    · rw [hfut]
      exact numbered_of_present_nil (present_restart _)
    · have hle := (h.given c ((hlog c).mp hc)).1
      rw [hfut]
      simp only [ContextFut.restart, ContextParts.restart]
      omega
    · rw [hfut] at hc
      exact (hlog c).mpr (h.issued c hc)
    · rw [hfut, present_restart] at hitem
      simp at hitem
  · have hfut : (s.step (.advance answer)).fut = s.fut := by
      simp [step, hpc, move, ContextFut.supervise, hconnected]
    refine ⟨?_, fun c hc => ?_, fun c hc => ?_, fun c hc => ?_⟩
    · rw [hfut]
      exact h.numbered
    · rw [hfut]
      exact h.given c ((hlog c).mp hc)
    · rw [hfut] at hc
      exact (hlog c).mpr (h.issued c hc)
    · rw [hfut]
      exact h.queued c ((hlog c).mp hc)

theorem Accounted.call (h : s.Accounted) {op : ContextOp} (hpc : s.pc.callback = true) :
    (s.step (.call op)).Accounted := by
  have hfut : (s.step (.call op)).fut = s.fut.withParts (op.apply s.fut.parts) := by
    simp [step, hpc, withParts]
  have hlog : (s.step (.call op)).log = s.log ++ op.events s.fut.parts := by
    simp [step, hpc]
  have hepoch : (op.apply s.fut.parts).epoch = s.fut.parts.epoch := epoch_apply _ op
  refine ⟨?_, fun c hc => ?_, fun c hc => ?_, fun c hc item hitem hnames => ?_⟩
  · rw [hfut]
    exact h.numbered.apply op
  · rw [hlog, List.mem_append, canceled_mem_events] at hc
    rw [hfut]
    simp only [withParts, hepoch]
    rcases hc with hc | ⟨handle, rfl, rfl⟩
    · obtain ⟨hle, hgiven⟩ := h.given c hc
      exact ⟨hle, fun heq => (hgiven heq).trans (lastHandle_le_apply _ op)⟩
    · exact ⟨le_rfl, fun _ => le_rfl⟩
  · rw [hfut] at hc
    rw [hlog, List.mem_append, canceled_mem_events]
    exact (mem_canceled_apply.mp hc).imp (h.issued c) id
  · rw [hfut] at hitem ⊢
    rw [hlog, List.mem_append, canceled_mem_events] at hc
    refine mem_canceled_apply.mpr (hc.imp (fun hc => ?_) id)
    rcases mem_present_apply.mp hitem with hitem | ⟨-, rfl⟩
    · exact h.queued c hc item hitem hnames
    · obtain ⟨-, hgiven⟩ := h.given c hc
      obtain ⟨-, hsame, hle⟩ := hnames
      have := hgiven hsame.symm
      simp only at hle
      omega

theorem Accounted.step {a : ContextAction} (h : s.Accounted) : (s.step a).Accounted := by
  cases a with
  | connect connected =>
      exact ⟨⟨h.numbered.distinct, h.numbered.bound⟩, h.given, h.issued, h.queued⟩
  | call op =>
      by_cases hpc : s.pc.callback = true
      · exact h.call hpc
      · simpa [ContextRun.step, hpc] using h
  | advance answer =>
      by_cases hpc : s.pc = .done
      · exact h.supervise hpc
      · exact h.frame hpc

end Accounting

section Clearing

variable {s : ContextRun}

theorem started_apply {p : ContextParts} (op : ContextOp) (h : p.flags.started = false) :
    (op.apply p).flags.started = false := by
  cases op with
  | spawn | wait | setMailboxCapacity | cancelFuture handle => exact h
  | terminate => rfl
  | stop =>
      simp only [ContextOp.apply, ContextParts.stop]
      split <;> exact h

/-- The loop leads to no callback before `started` but by a restart. -/
theorem unstarted_move {f : ContextFut} {answer : Bool} {pc : ContextPc}
    (h : (f.move answer pc).pc = .creating ∨ (f.move answer pc).pc = .inRestarting) :
    (f.move answer pc).fut.parts.flags.started = false := by
  cases pc with
  | done =>
      simp only [move, ContextFut.supervise] at h ⊢
      split at h
      case isTrue hconnected =>
        simp only [hconnected, if_true]
        rfl
      case isFalse => simp at h
  | items idx =>
      simp only [move, pollItems] at h
      split at h
      · simp at h
      · split_ifs at h <;> simp at h
  | creating | inMessage | inStopped | inRestarting | finished => simp [move] at h
  | idle | inStarted | outer | inWait | mailbox | afterMailbox | inItem idx | endItems | check
  | inStopping requested =>
      simp only [move, startPoll, afterStarted, pollWait, afterWait, pollMailbox,
        ContextFut.afterMailbox, afterReady, afterPending, ContextFut.endItems, ContextFut.check,
        afterStopping] at h
      split_ifs at h <;> simp at h

theorem afterStarted_canceled (f : ContextFut) : f.afterStarted.fut.parts.canceled = [] := by
  unfold afterStarted
  split
  case isTrue => exact clean_canceled _
  case isFalse hmodified =>
    simp only [modified, Bool.or_eq_true, not_or, decide_eq_true_eq, not_not] at hmodified
    exact hmodified.2

theorem afterPending_canceled (f : ContextFut) (idx : ℕ) :
    (f.afterPending idx).fut.parts.canceled = [] := by
  simp only [afterPending]
  split
  case isTrue => exact clean_canceled _
  case isFalse hnil =>
    rw [not_not] at hnil
    split <;> exact hnil

/-- A future that is ready and has no other future's cancellation queued leaves none queued. -/
theorem clear_afterReady {f : ContextFut} {idx : ℕ}
    (h : ∀ c ∈ f.parts.canceled, ∀ item ∈ f.items.eraseIdx idx ++ f.parts.items,
      ¬ c.Names item) : Clear (f.afterReady idx).fut := by
  rw [afterReady_fut]
  refine Clear.frame (fun c hc item hitem => ?_) (Frame.mergeIfWaiting _)
  refine h c hc item (List.Subperm.subset ?_ hitem)
  exact (List.subperm_append_right _).mpr (swapRemove_subperm f.items idx)

theorem clear_call {op : ContextOp} (h : s.Accounted) (hpc : s.pc.callback = true)
    (hok : s.CancelsInTime (.call op))
    (hclear : s.BeforeCleanUp ∨ s.fut.parts.flags.stopped = true ∨ Clear s.fut) :
    (s.step (.call op)).BeforeCleanUp ∨ (s.step (.call op)).fut.parts.flags.stopped = true ∨
      Clear (s.step (.call op)).fut := by
  have hstep : s.step (.call op) =
      ⟨s.fut.withParts (op.apply s.fut.parts), s.pc, s.log ++ op.events s.fut.parts⟩ := by
    simp [step, hpc, withParts]
  rw [hstep]
  rcases hclear with (hearly | ⟨hidle, -⟩) | hstopped | hclear
  · exact Or.inl (Or.inl hearly)
  · rw [hidle] at hpc
    cases hpc
  · exact Or.inr (Or.inl (stopped_apply _ op hstopped))
  · by_cases hnow : cleansUp s.pc = true ∨ s.fut.parts.flags.stopped = true
    · rcases hnow with hearly | hstopped
      · exact Or.inl (Or.inl hearly)
      · exact Or.inr (Or.inl (stopped_apply _ op hstopped))
    · refine Or.inr (Or.inr fun c hc item hitem hnames => ?_)
      rw [not_or] at hnow
      rcases mem_canceled_apply.mp hc with hc | ⟨handle, rfl, rfl⟩
      · rcases mem_present_apply.mp hitem with hitem | ⟨-, rfl⟩
        · exact hclear c hc item hitem hnames
        · have hgiven := (h.given c (h.issued c hc)).2 hnames.2.1.symm
          have hle : s.fut.parts.lastHandle + 1 ≤ c.given := hnames.2.2
          omega
      · have habsent := (hok.resolve_left hnow.1).resolve_left hnow.2
        rcases mem_present_apply.mp hitem with hitem | ⟨hspawn, -⟩
        · exact habsent item hitem hnames.1
        · cases hspawn

/-- A move that begins where the clean-up is still to come ends there, or has cleaned up. -/
theorem clear_beforeCleanUp {answer : Bool}
    (hunstarted : s.pc = .creating ∨ s.pc = .inRestarting → s.fut.parts.flags.started = false)
    (hok : s.CancelsInTime (.advance answer)) (h : s.BeforeCleanUp) :
    (s.step (.advance answer)).BeforeCleanUp ∨
      (s.step (.advance answer)).fut.parts.flags.stopped = true ∨
        Clear (s.step (.advance answer)).fut := by
  obtain ⟨fut, pc, log⟩ := s
  rcases h with h | ⟨hidle, hstarted⟩
  · cases pc with
    | creating => exact Or.inl (Or.inr ⟨rfl, hunstarted (Or.inl rfl)⟩)
    | inRestarting => exact Or.inl (Or.inr ⟨rfl, hunstarted (Or.inr rfl)⟩)
    | inStarted => exact Or.inr (Or.inr (clear_of_canceled_nil (afterStarted_canceled fut)))
    | inItem idx =>
        cases answer with
        | false => exact Or.inr (Or.inr (clear_of_canceled_nil (afterPending_canceled fut idx)))
        | true =>
            rcases hok with hstopped | hnone
            · exact Or.inr (Or.inl ((afterReady_frame fut idx).stopped hstopped))
            · exact Or.inr (Or.inr (clear_afterReady hnone))
    | idle | outer | inWait | mailbox | inMessage | afterMailbox | items idx | endItems | check
    | inStopping requested | inStopped | done | finished => cases h
  · simp only at hidle hstarted
    subst hidle
    refine Or.inl (Or.inl ?_)
    simp [step, move, startPoll, hstarted, cleansUp]

theorem clear_advance {answer : Bool}
    (hunstarted : s.pc = .creating ∨ s.pc = .inRestarting → s.fut.parts.flags.started = false)
    (hok : s.CancelsInTime (.advance answer))
    (hclear : s.BeforeCleanUp ∨ s.fut.parts.flags.stopped = true ∨ Clear s.fut) :
    (s.step (.advance answer)).BeforeCleanUp ∨
      (s.step (.advance answer)).fut.parts.flags.stopped = true ∨
        Clear (s.step (.advance answer)).fut := by
  rcases hclear with hearly | hclear
  · exact clear_beforeCleanUp hunstarted hok hearly
  · by_cases hpc : s.pc = .done
    · by_cases hconnected : s.fut.connected = true
      · refine Or.inl (Or.inl ?_)
        simp [step, hpc, move, ContextFut.supervise, hconnected, cleansUp]
      · have hfut : (s.step (.advance answer)).fut = s.fut := by
          simp [step, hpc, move, ContextFut.supervise, hconnected]
        rw [hfut]
        exact Or.inr hclear
    · have hframe := move_frame s.fut answer hpc
      exact Or.inr (hclear.imp hframe.stopped fun h => h.frame hframe)

end Clearing

section Runs

variable {s : ContextRun}

theorem neverPolledAgain_append {events : List ContextEvent}
    (h : s.NeverPolledAgain) (hcanceled : ∀ c, .canceled c ∈ events → events = [.canceled c])
    (hpolled : ∀ item, .polled item ∈ events → ∀ c, .canceled c ∈ s.log → ¬ c.Names item) :
    NeverPolledAgain ⟨s.fut, s.pc, s.log ++ events⟩ := by
  refine preceded_append.mpr ⟨h, ?_⟩
  rintro before e after hsplit item rfl c hc
  have hmem : .polled item ∈ events := by simp [hsplit]
  rcases List.mem_append.mp hc with hc | hc
  · exact hpolled item hmem c hc
  · have hsingle := hcanceled c (by simp [hsplit, hc])
    rw [hsingle] at hmem
    simp at hmem

theorem polled_call {op : ContextOp} (h : s.NeverPolledAgain) :
    (s.step (.call op)).NeverPolledAgain := by
  simp only [step]
  split
  · refine neverPolledAgain_append h (fun c hc => ?_) fun item hmem => ?_
    · obtain ⟨handle, rfl, rfl⟩ := canceled_mem_events.mp hc
      rfl
    · exact absurd hmem polled_notMem_events
  · exact h

theorem polled_advance {answer : Bool} (h : s.Accounted)
    (hok : s.TakesUncanceled (.advance answer)) (hpolled : s.NeverPolledAgain) :
    (s.step (.advance answer)).NeverPolledAgain := by
  refine neverPolledAgain_append hpolled (fun c hc => absurd hc canceled_notMem_move) ?_
  intro item hmem c hc hnames
  obtain ⟨idx, hpc, hitem, hstopping⟩ := visible_of_mem_move hmem
  have hpresent : item ∈ s.fut.present := List.mem_append_left _ (List.mem_of_getElem? hitem)
  have hqueued := h.queued c hc item hpresent hnames
  exact hok idx hpc hstopping item hitem c hqueued hnames

theorem takesUncanceled_of_step {answer : Bool} (h : s.Accounted)
    (hpolled : (s.step (.advance answer)).NeverPolledAgain) :
    s.TakesUncanceled (.advance answer) := by
  intro idx hpc hstopping item hitem c hc
  have hlog : (s.step (.advance answer)).log = s.log ++ .polled item :: [] := by
    simp [step, hpc, move, pollItems, hitem, hstopping]
  exact hpolled s.log (.polled item) [] hlog item rfl c (h.issued c hc)

/-- What the loop takes up decides whether a cancelled future is polled. -/
theorem takesUncanceled_iff {a : ContextAction} (h : s.Accounted ∧ s.NeverPolledAgain) :
    s.TakesUncanceled a ↔ (s.step a).Accounted ∧ (s.step a).NeverPolledAgain := by
  obtain ⟨haccounted, hpolled⟩ := h
  constructor
  · intro hok
    refine ⟨haccounted.step, ?_⟩
    cases a with
    | connect connected => exact hpolled
    | call op => exact polled_call hpolled
    | advance answer => exact polled_advance haccounted hok hpolled
  · rintro ⟨-, hpolled'⟩
    cases a with
    | connect connected | call op => trivial
    | advance answer => exact takesUncanceled_of_step haccounted hpolled'

theorem inTime_step {a : ContextAction} (h : s.InTime) (hok : s.CancelsInTime a) :
    (s.step a).InTime := by
  refine ⟨h.accounted.step, ?_, ?_⟩
  · cases a with
    | connect connected => exact h.unstarted
    | advance answer => exact unstarted_move
    | call op =>
        simp only [step]
        split
        · exact fun hpc => started_apply op (h.unstarted hpc)
        · exact h.unstarted
  · cases a with
    | connect connected => exact h.clear
    | advance answer => exact clear_advance h.unstarted hok h.clear
    | call op =>
        by_cases hpc : s.pc.callback = true
        · exact clear_call h.accounted hpc hok h.clear
        · simpa [step, hpc] using h.clear

/-- Where cancellations are in time, none is queued for a future whose turn comes. -/
theorem takesUncanceled_of_inTime {a : ContextAction} (h : s.InTime) : s.TakesUncanceled a := by
  cases a with
  | connect connected | call op => trivial
  | advance answer =>
      intro idx hpc hstopping item hitem c hc
      rcases h.clear with (hearly | ⟨hidle, -⟩) | hstopped | hclear
      · rw [hpc] at hearly
        cases hearly
      · rw [hpc] at hidle
        cases hidle
      · rw [stopping, ContextFlags.isStopping, hstopped, Bool.or_true] at hstopping
        cases hstopping
      · exact hclear c hc item (List.mem_append_left _ (List.mem_of_getElem? hitem))

theorem inTime_new (connected : Bool) : (new connected).InTime where
  accounted := ⟨numbered_of_present_nil rfl, by simp [new], by simp [new, ContextFut.new,
    ContextParts.new], by simp [new]⟩
  unstarted _ := rfl
  clear := Or.inl (Or.inl rfl)

theorem admissible_takesUncanceled {as : List ContextAction} (hs : s.InTime)
    (h : Admissible step CancelsInTime s as) : Admissible step TakesUncanceled s as := by
  induction as generalizing s with
  | nil => trivial
  | cons a as ih => exact ⟨takesUncanceled_of_inTime hs, ih (inTime_step hs h.1) h.2⟩

end Runs

theorem takesUncanceled_iff_run (connected : Bool) (as : List ContextAction) :
    Admissible step TakesUncanceled (new connected) as ↔ ∀ before after, as = before ++ after →
      (run step (new connected) before).NeverPolledAgain := by
  have haccounted (bs : List ContextAction) : (run step (new connected) bs).Accounted :=
    invariant_run_of_mem (fun _ _ _ hs => hs.step) (inTime_new connected).accounted
  rw [admissible_iff_forall_run (I := fun s : ContextRun => s.Accounted ∧ s.NeverPolledAgain)
    (fun _ _ => takesUncanceled_iff) ⟨(inTime_new connected).accounted, preceded_nil⟩]
  exact ⟨fun h before after heq => (h before after heq).2,
    fun h before after heq => ⟨haccounted before, h before after heq⟩⟩

/-- In the runs with every cancellation in time a cancelled future is never polled again. The others
in which none is are those whose loop takes up no future with a queued cancellation. -/
theorem canceled_never_polled (connected : Bool) (as : List ContextAction) :
    (Admissible step CancelsInTime (new connected) as → ∀ before after, as = before ++ after →
      (run step (new connected) before).NeverPolledAgain) ∧
    (Admissible step TakesUncanceled (new connected) as ↔ ∀ before after, as = before ++ after →
      (run step (new connected) before).NeverPolledAgain) := by
  have hiff := takesUncanceled_iff_run connected as
  exact ⟨fun hintime => hiff.mp (admissible_takesUncanceled (inTime_new connected) hintime), hiff⟩

/-- Of two futures the first cancels the second and is pending. -/
def pendingRun : List ContextAction :=
  [.call .spawn, .call .spawn, .advance true, .advance true, .advance true, .advance true,
    .advance false, .advance true, .advance true, .call (.cancelFuture 2), .advance false,
    .advance true, .advance false, .advance true, .advance true, .advance false, .advance true,
    .advance true, .advance true]

theorem canceled_never_polled_pendingRun :
    Admissible step CancelsInTime (new true) pendingRun ∧
      (run step (new true) pendingRun).NeverPolledAgain :=
  have h : Admissible step CancelsInTime (new true) pendingRun := by decide +kernel
  ⟨h, (canceled_never_polled true pendingRun).1 h pendingRun [] (List.append_nil _).symm⟩

/-- A message handler cancels the one future, which is polled next. -/
def handlerRun : List ContextAction :=
  [.call .spawn, .advance true, .advance true, .advance true, .advance true, .advance true,
    .call (.cancelFuture 1), .advance true, .advance false, .advance true, .advance true]

theorem not_canceled_never_polled :
    ¬ ∀ (connected : Bool) (as : List ContextAction),
      (run step (new connected) as).NeverPolledAgain := by
  intro h
  have hlog : (run step (new true) handlerRun).log =
      [.started, .message, .canceled ⟨1, 0, 1⟩] ++ .polled ⟨1, 0⟩ :: [] := by
    decide +kernel
  exact h true handlerRun _ _ _ hlog ⟨1, 0⟩ rfl ⟨1, 0, 1⟩ (by simp) (by decide)

end ActixPura.ContextRun
