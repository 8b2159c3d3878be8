import ActixPura.ContextFut

/-!
# What a move of the context leaves

Whatever place of the loop is left, the futures that are present afterwards were present before, no
cancellation is queued that was not queued before, and one that is no longer queued has removed its
future. A terminated context stays terminated. Only a restart is different: it removes every future
and keeps the queue.

Merged futures and futures that are still with the context are both present. At most one of them has
a given handle, because the clean-up looks at the second kind only when the first has no such
future.
-/

namespace ActixPura

namespace ContextFut

def present (f : ContextFut) : List ContextItem := f.items ++ f.parts.items

def Distinct (f : ContextFut) : Prop :=
  ∀ handle : ℕ, f.present.countP (fun item => item.handle = handle) ≤ 1

structure Frame (f f' : ContextFut) : Prop where
  epoch : f'.parts.epoch = f.parts.epoch
  lastHandle : f'.parts.lastHandle = f.parts.lastHandle
  stopped : f.parts.flags.stopped = true → f'.parts.flags.stopped = true
  present : List.Subperm f'.present f.present
  canceled : f'.parts.canceled ⊆ f.parts.canceled
  reaped : f.Distinct → ∀ c ∈ f.parts.canceled,
    c ∈ f'.parts.canceled ∨ ∀ item ∈ f'.present, item.handle ≠ c.handle

variable {f f' f'' : ContextFut}

theorem Distinct.of_subperm (h : f.Distinct) (hsub : List.Subperm f'.present f.present) :
    f'.Distinct :=
  fun handle => (hsub.countP_le _).trans (h handle)

namespace Frame

theorem distinct (h : Frame f f') (hf : f.Distinct) : f'.Distinct := hf.of_subperm h.present

theorem refl (f : ContextFut) : Frame f f :=
  ⟨rfl, rfl, id, List.Subperm.refl _, fun _ h => h, fun _ _ h => Or.inl h⟩

theorem trans (h : Frame f f') (h' : Frame f' f'') : Frame f f'' where
  epoch := h'.epoch.trans h.epoch
  lastHandle := h'.lastHandle.trans h.lastHandle
  stopped := h'.stopped ∘ h.stopped
  present := h'.present.trans h.present
  canceled _ hc := h.canceled (h'.canceled hc)
  reaped hf c hc := by
    rcases h.reaped hf c hc with hc' | hgone
    · exact h'.reaped (h.distinct hf) c hc'
    · exact Or.inr fun item hitem => hgone item (h'.present.subset hitem)

/-- A change that leaves the queue alone. -/
theorem of_canceled_eq (hepoch : f'.parts.epoch = f.parts.epoch)
    (hlast : f'.parts.lastHandle = f.parts.lastHandle)
    (hstopped : f.parts.flags.stopped = true → f'.parts.flags.stopped = true)
    (hpresent : List.Subperm f'.present f.present)
    (hcanceled : f'.parts.canceled = f.parts.canceled) : Frame f f' where
  epoch := hepoch
  lastHandle := hlast
  stopped := hstopped
  present := hpresent
  canceled := by
    rw [hcanceled]
    exact List.Subset.refl _
  reaped _ c hc := Or.inl (by rwa [hcanceled])

theorem setFlags {flags : ContextFlags}
    (h : f.parts.flags.stopped = true → flags.stopped = true) : Frame f (f.setFlags flags) :=
  of_canceled_eq rfl rfl h (List.Subperm.refl _) rfl

theorem setCurrHandle (handle : ℕ) : Frame f (f.setCurrHandle handle) :=
  of_canceled_eq rfl rfl id (List.Subperm.refl _) rfl

theorem merge (f : ContextFut) : Frame f f.merge :=
  of_canceled_eq rfl rfl id (by simp [ContextFut.present, ContextFut.merge, List.Subperm.refl]) rfl

theorem mergeIfWaiting (f : ContextFut) : Frame f f.mergeIfWaiting := by
  unfold ContextFut.mergeIfWaiting
  split
  · exact merge f
  · exact refl f

theorem setWait (wait : ℕ) : Frame f { f with wait := wait } :=
  of_canceled_eq rfl rfl id (List.Subperm.refl _) rfl

theorem setItems {items : List ContextItem} (h : List.Subperm items f.items) :
    Frame f { f with items := items } :=
  of_canceled_eq rfl rfl id ((List.subperm_append_right _).mpr h) rfl

theorem truncateCanceled (h : f.parts.items = []) : Frame f f.truncateCanceled := by
  unfold ContextFut.truncateCanceled
  split
  case isTrue hitems =>
    refine ⟨rfl, rfl, id, List.Subperm.refl _, List.nil_subset _, fun _ c _ => Or.inr ?_⟩
    intro item hitem
    simp [ContextFut.present, h, hitems] at hitem
  case isFalse => exact refl f

end Frame

section Reaping

theorem removeItemByHandle_subperm (handle : ℕ) (items : List ContextItem) :
    List.Subperm (removeItemByHandle handle items).1 items :=
  (List.sublist_append_left _ _).subperm.trans (removeWhere_perm _ _).subperm

theorem handle_ne_of_mem_removeItemByHandle {handle : ℕ} {items : List ContextItem}
    {item : ContextItem} (h : item ∈ (removeItemByHandle handle items).1) :
    item.handle ≠ handle := by
  simpa using not_of_mem_removeWhere h

theorem reap_parts (f : ContextFut) (c : Cancellation) :
    (f.reap c).1.parts = { f.parts with items := (f.reap c).1.parts.items } := by
  simp only [reap]
  split <;> rfl

theorem reap_present (f : ContextFut) (c : Cancellation) :
    List.Subperm (f.reap c).1.present f.present := by
  simp only [reap]
  split
  · exact (List.subperm_append_right _).mpr (removeItemByHandle_subperm c.handle f.items)
  · exact List.Subperm.append (removeItemByHandle_subperm c.handle f.items)
      (removeItemByHandle_subperm c.handle f.parts.items)

/-- One cancellation removes the future of its handle, wherever it is. -/
theorem reap_gone (hf : f.Distinct) (c : Cancellation) :
    ∀ item ∈ (f.reap c).1.present, item.handle ≠ c.handle := by
  intro item hitem
  simp only [reap] at hitem
  split at hitem
  case isTrue hremoved =>
    rcases List.mem_append.mp hitem with hitem | hitem
    · exact handle_ne_of_mem_removeItemByHandle hitem
    · intro heq
      obtain ⟨other, hother⟩ := List.exists_mem_of_ne_nil _ hremoved
      have hhandle := of_mem_removed hother
      have hone := hf c.handle
      have hpos : 0 < f.items.countP (fun item => item.handle = c.handle) :=
        List.countP_pos_iff.mpr ⟨other, mem_of_mem_removed hother, hhandle⟩
      have hpos' : 0 < f.parts.items.countP (fun item => item.handle = c.handle) :=
        List.countP_pos_iff.mpr ⟨item, hitem, by simpa using heq⟩
      rw [present, List.countP_append] at hone
      omega
  case isFalse =>
    rcases List.mem_append.mp hitem with hitem | hitem
    · exact handle_ne_of_mem_removeItemByHandle hitem
    · exact handle_ne_of_mem_removeItemByHandle hitem

theorem mem_present_of_reaped {c : Cancellation} {item : ContextItem}
    (h : item ∈ (f.reap c).2) : item ∈ f.present := by
  simp only [reap] at h
  split at h
  · exact List.mem_append_left _ (mem_of_mem_removed h)
  · exact List.mem_append_right _ (mem_of_mem_removed h)

theorem reapAll_parts (cs : List Cancellation) (f : ContextFut) :
    (reapAll cs f).1.parts = { f.parts with items := (reapAll cs f).1.parts.items } := by
  induction cs generalizing f with
  | nil => rfl
  | cons c cs ih =>
      simp only [reapAll]
      rw [ih, reap_parts]

theorem reapAll_present (cs : List Cancellation) (f : ContextFut) :
    List.Subperm (reapAll cs f).1.present f.present := by
  induction cs generalizing f with
  | nil => exact List.Subperm.refl _
  | cons c cs ih => exact (ih _).trans (reap_present f c)

theorem reapAll_gone {cs : List Cancellation} (hf : f.Distinct) :
    ∀ c ∈ cs, ∀ item ∈ (reapAll cs f).1.present, item.handle ≠ c.handle := by
  induction cs generalizing f with
  | nil => simp
  | cons c cs ih =>
      intro c' hc' item hitem
      have hnext := hf.of_subperm (reap_present f c)
      rcases List.mem_cons.mp hc' with rfl | hc'
      · exact reap_gone hf c' item ((reapAll_present cs _).subset hitem)
      · exact ih hnext c' hc' item hitem

theorem of_mem_reapAll {cs : List Cancellation} {e : ContextEvent} (h : e ∈ (reapAll cs f).2) :
    ∃ item ∈ f.present, ∃ c ∈ cs, e = .removed item c := by
  induction cs generalizing f with
  | nil => simp [reapAll] at h
  | cons c cs ih =>
      simp only [reapAll, List.mem_append, List.mem_map] at h
      rcases h with ⟨item, hitem, rfl⟩ | h
      · exact ⟨item, mem_present_of_reaped hitem, c, List.mem_cons_self, rfl⟩
      · obtain ⟨item, hitem, c', hc', rfl⟩ := ih h
        exact ⟨item, (reap_present f c).subset hitem, c', List.mem_cons_of_mem _ hc', rfl⟩

theorem mem_removeItemByHandle {handle : ℕ} {items : List ContextItem} {item : ContextItem}
    (h : item ∈ items) : item ∈ (removeItemByHandle handle items).1 ∨
      item ∈ (removeItemByHandle handle items).2 :=
  List.mem_append.mp ((removeWhere_perm _ items).mem_iff.mpr h)

theorem mem_reap {item : ContextItem} (c : Cancellation) (h : item ∈ f.present) :
    item ∈ (f.reap c).1.present ∨ item ∈ (f.reap c).2 := by
  simp only [reap]
  split
  case isTrue =>
    rcases List.mem_append.mp h with h | h
    · exact (mem_removeItemByHandle h).imp (List.mem_append_left _) id
    · exact Or.inl (List.mem_append_right _ h)
  case isFalse hremoved =>
    rw [not_not] at hremoved
    rcases List.mem_append.mp h with h | h
    · rcases mem_removeItemByHandle h with h | h
      · exact Or.inl (List.mem_append_left _ h)
      · rw [hremoved] at h
        simp at h
    · exact (mem_removeItemByHandle h).imp (List.mem_append_right _) id

/-- A present future stays or is seen to be removed. -/
theorem mem_reapAll {item : ContextItem} (cs : List Cancellation) (h : item ∈ f.present) :
    item ∈ (reapAll cs f).1.present ∨ ∃ c ∈ cs, .removed item c ∈ (reapAll cs f).2 := by
  induction cs generalizing f with
  | nil => exact Or.inl h
  | cons c cs ih =>
      simp only [reapAll, List.mem_append, List.mem_map]
      rcases mem_reap c h with h | h
      · rcases ih h with h | ⟨c', hc', h⟩
        · exact Or.inl h
        · exact Or.inr ⟨c', List.mem_cons_of_mem _ hc', Or.inr h⟩
      · exact Or.inr ⟨c, List.mem_cons_self, Or.inl ⟨item, h, rfl⟩⟩

/-- The clean-up removes the future of every queued handle. -/
theorem removed_of_canceled {item : ContextItem} {c : Cancellation} (hf : f.Distinct)
    (hitem : item ∈ f.present) (hc : c ∈ f.parts.canceled) (hhandle : item.handle = c.handle) :
    ∃ c' ∈ f.parts.canceled, .removed item c' ∈ f.cleanCanceledHandle.2 := by
  have hf' : Distinct { f with parts := { f.parts with canceled := [] } } := hf
  rcases mem_reapAll (f := { f with parts := { f.parts with canceled := [] } })
    f.parts.canceled.reverse hitem with hleft | ⟨c', hc', hremoved⟩
  · exact absurd hhandle (reapAll_gone hf' c (List.mem_reverse.mpr hc) item hleft)
  · exact ⟨c', List.mem_reverse.mp hc', hremoved⟩

theorem clean_parts (f : ContextFut) : f.cleanCanceledHandle.1.parts =
    { f.parts with canceled := [], items := f.cleanCanceledHandle.1.parts.items } := by
  rw [cleanCanceledHandle, reapAll_parts]

@[simp] theorem clean_canceled (f : ContextFut) :
    f.cleanCanceledHandle.1.parts.canceled = [] := by
  rw [clean_parts]

theorem Frame.clean (f : ContextFut) : Frame f f.cleanCanceledHandle.1 where
  epoch := by rw [clean_parts]
  lastHandle := by rw [clean_parts]
  stopped := by
    rw [clean_parts]
    exact id
  present := reapAll_present _ _
  canceled := by simp
  reaped hf c hc := by
    have hf' : Distinct { f with parts := { f.parts with canceled := [] } } := hf
    exact Or.inr (reapAll_gone hf' c (List.mem_reverse.mpr hc))

theorem of_mem_clean {e : ContextEvent} (h : e ∈ f.cleanCanceledHandle.2) :
    ∃ item ∈ f.present, ∃ c ∈ f.parts.canceled, e = .removed item c := by
  obtain ⟨item, hitem, c, hc, rfl⟩ := of_mem_reapAll h
  exact ⟨item, hitem, c, List.mem_reverse.mp hc, rfl⟩

end Reaping

section Moves

theorem startPoll_frame (f : ContextFut) : Frame f f.startPoll.fut := by
  unfold startPoll
  split
  · exact Frame.refl f
  · exact Frame.setFlags id

theorem afterStarted_frame (f : ContextFut) : Frame f f.afterStarted.fut := by
  unfold afterStarted
  split
  · exact (Frame.merge f).trans (Frame.clean _)
  · exact Frame.merge f

theorem afterWait_frame (f : ContextFut) (ready : Bool) : Frame f (f.afterWait ready).fut := by
  unfold afterWait
  split
  · exact Frame.refl f
  · exact (Frame.setWait _).trans (Frame.merge _)

theorem pollItems_frame (f : ContextFut) (idx : ℕ) : Frame f (f.pollItems idx).fut := by
  unfold pollItems
  split
  · exact Frame.refl f
  · split
    · exact Frame.refl f
    · exact Frame.setCurrHandle _

theorem afterPending_frame (f : ContextFut) (idx : ℕ) : Frame f (f.afterPending idx).fut := by
  simp only [afterPending]
  split
  · exact (Frame.mergeIfWaiting f).trans (Frame.clean _)
  · split
    · exact (Frame.mergeIfWaiting f).trans (Frame.setItems (swapWithLast_perm _ idx).subperm)
    · exact Frame.mergeIfWaiting f

theorem afterReady_fut (f : ContextFut) (idx : ℕ) : (f.afterReady idx).fut =
    mergeIfWaiting { f with items := swapRemove f.items idx } := by
  simp only [afterReady]
  split <;> rfl

theorem afterReady_frame (f : ContextFut) (idx : ℕ) : Frame f (f.afterReady idx).fut := by
  rw [afterReady_fut]
  refine Frame.trans (Frame.setItems ?_) (Frame.mergeIfWaiting _)
  exact (swapRemove_subperm f.items idx).trans (List.eraseIdx_sublist f.items idx).subperm

theorem endItems_frame (f : ContextFut) : Frame f f.endItems.fut := by
  have hmerge := (Frame.setCurrHandle 0).trans (Frame.merge (f.setCurrHandle 0))
  simp only [endItems]
  split
  · exact hmerge.trans (Frame.truncateCanceled rfl)
  · exact hmerge

theorem afterStopping_frame (f : ContextFut) (requested stop : Bool) :
    Frame f (f.afterStopping requested stop).fut := by
  unfold afterStopping
  split
  · exact Frame.setFlags fun _ => rfl
  · split
    · exact Frame.setFlags id
    · exact Frame.refl f

theorem check_fut (f : ContextFut) : f.check.fut = f := by
  unfold check
  split_ifs <;> rfl

/-- Every move but the supervisor's leaves the context in the frame of where it began. -/
theorem move_frame (f : ContextFut) (answer : Bool) {pc : ContextPc} (hpc : pc ≠ .done) :
    Frame f (f.move answer pc).fut := by
  cases pc with
  | creating | inMessage | inStopped | inRestarting | finished => exact Frame.refl f
  | idle => exact startPoll_frame f
  | inStarted => exact afterStarted_frame f
  | outer =>
      simp only [move, pollWait]
      split <;> exact Frame.refl f
  | inWait => exact afterWait_frame f answer
  | mailbox =>
      simp only [move, pollMailbox]
      split <;> exact Frame.refl f
  | afterMailbox =>
      simp only [move, afterMailbox]
      split <;> exact Frame.refl f
  | items idx => exact pollItems_frame f idx
  | inItem idx =>
      simp only [move]
      split
      · exact afterReady_frame f idx
      · exact afterPending_frame f idx
  | endItems => exact endItems_frame f
  | check =>
      simp only [move, check_fut]
      exact Frame.refl f
  | inStopping requested => exact afterStopping_frame f requested answer
  | done => exact absurd rfl hpc

/-- What can be seen of a move: a removal is that of a present future by a queued cancellation, work
is done only when no stop is under way, and nothing the context is asked for happens by itself. -/
def Visible (f : ContextFut) (pc : ContextPc) : ContextEvent → Prop
  | .removed item c => item ∈ f.present ∧ c ∈ f.parts.canceled
  | .polled item => ∃ idx, pc = .items idx ∧ f.items[idx]? = some item ∧ f.stopping = false
  | .waitPolled | .message => f.stopping = false
  | .canceled _ | .stop | .terminate => False
  | .restarting | .ready => pc = .done ∨ pc = .inStopped
  | .started | .continued | .stopped | .pending => True

theorem visible_of_mem_clean {pc : ContextPc} {e : ContextEvent} (h : Frame f f')
    (he : e ∈ f'.cleanCanceledHandle.2) : f.Visible pc e := by
  obtain ⟨item, hitem, c, hc, rfl⟩ := of_mem_clean he
  exact ⟨h.present.subset hitem, h.canceled hc⟩

theorem visible_of_mem_move {answer : Bool} {pc : ContextPc} {e : ContextEvent}
    (h : e ∈ (f.move answer pc).events) : f.Visible pc e := by
  cases pc with
  | creating | inMessage | inRestarting | finished =>
      simp [move] at h
  | inStopped =>
      rw [move, List.mem_singleton] at h
      subst h
      exact Or.inr rfl
  | idle =>
      simp only [move, startPoll] at h
      split_ifs at h <;> simp at h
      subst h
      trivial
  | inStarted =>
      simp only [move, afterStarted] at h
      split_ifs at h
      · exact visible_of_mem_clean (Frame.merge f) h
      · simp at h
  | outer =>
      simp only [move, pollWait] at h
      split_ifs at h with hwait <;> simp at h
      subst h
      exact hwait.2
  | inWait =>
      simp only [move, afterWait] at h
      split_ifs at h <;> simp at h
      subst h
      trivial
  | mailbox =>
      simp only [move, pollMailbox] at h
      split_ifs at h with hmail <;> simp at h
      subst h
      have hwaiting := hmail.1
      rw [ContextParts.waiting, Bool.or_eq_false_iff] at hwaiting
      exact hwaiting.2
  | afterMailbox =>
      simp only [move, afterMailbox] at h
      split_ifs at h <;> simp at h
  | items idx =>
      simp only [move, pollItems] at h
      split at h
      case h_1 => simp at h
      case h_2 item hitem =>
        split_ifs at h with hstop <;> simp at h
        subst h
        exact ⟨idx, rfl, hitem, by simpa using hstop⟩
  | inItem idx =>
      simp only [move, afterReady, afterPending] at h
      split_ifs at h <;> simp at h
      exact visible_of_mem_clean (Frame.mergeIfWaiting f) h
  | endItems =>
      simp only [move, endItems] at h
      split_ifs at h <;> simp at h
  | check =>
      simp only [move, check] at h
      split_ifs at h <;> simp at h <;> subst h <;> trivial
  | inStopping requested =>
      simp only [move, afterStopping] at h
      split_ifs at h <;> simp at h
      · subst h
        trivial
      · subst h
        trivial
      · rcases h with rfl | rfl <;> trivial
  | done =>
      simp only [move, supervise] at h
      split_ifs at h <;> simp at h
      subst h
      exact Or.inl rfl

end Moves

section Handles

/-- The present futures have handles that were given out, each its own. -/
structure Numbered (f : ContextFut) : Prop where
  distinct : f.Distinct
  bound : ∀ item ∈ f.present, item.handle ≤ f.parts.lastHandle

def withParts (f : ContextFut) (parts : ContextParts) : ContextFut := { f with parts := parts }

theorem present_spawn (f : ContextFut) : (f.withParts f.parts.spawn).present =
    f.present ++ [⟨f.parts.lastHandle + 1, f.parts.epoch⟩] := by
  simp [present, withParts, ContextParts.spawn]

/-- Only `spawn` changes which futures are present. -/
theorem present_apply (f : ContextFut) {op : ContextOp} (h : op ≠ .spawn) :
    (f.withParts (op.apply f.parts)).present = f.present ∧
      (op.apply f.parts).lastHandle = f.parts.lastHandle := by
  cases op with
  | spawn => exact absurd rfl h
  | wait | terminate | setMailboxCapacity | cancelFuture handle => exact ⟨rfl, rfl⟩
  | stop =>
      simp only [ContextOp.apply, ContextParts.stop]
      split <;> exact ⟨rfl, rfl⟩

theorem epoch_apply (p : ContextParts) (op : ContextOp) : (op.apply p).epoch = p.epoch := by
  cases op with
  | spawn | wait | terminate | setMailboxCapacity | cancelFuture handle => rfl
  | stop =>
      simp only [ContextOp.apply, ContextParts.stop]
      split <;> rfl

theorem mem_present_apply {f : ContextFut} {op : ContextOp} {item : ContextItem} :
    item ∈ (f.withParts (op.apply f.parts)).present ↔
      item ∈ f.present ∨ op = .spawn ∧ item = ⟨f.parts.lastHandle + 1, f.parts.epoch⟩ := by
  by_cases hop : op = .spawn
  · subst hop
    rw [ContextOp.apply, present_spawn, List.mem_append, List.mem_singleton]
    simp
  · rw [(present_apply f hop).1]
    simp [hop]

theorem lastHandle_le_apply (p : ContextParts) (op : ContextOp) :
    p.lastHandle ≤ (op.apply p).lastHandle := by
  cases op with
  | spawn => exact Nat.le_succ _
  | wait | terminate | setMailboxCapacity | cancelFuture handle => exact le_rfl
  | stop =>
      simp only [ContextOp.apply, ContextParts.stop]
      split <;> exact le_rfl

/-- Only `cancelFuture` changes the queue. -/
theorem mem_canceled_apply {p : ContextParts} {op : ContextOp} {c : Cancellation} :
    c ∈ (op.apply p).canceled ↔
      c ∈ p.canceled ∨ ∃ handle, op = .cancelFuture handle ∧ c = p.cancellation handle := by
  cases op with
  | spawn | wait | terminate | setMailboxCapacity => simp [ContextOp.apply, ContextParts.spawn,
      ContextParts.addWait, ContextParts.terminate, ContextParts.setMailboxCapacity]
  | cancelFuture handle => simp [ContextOp.apply, ContextParts.cancelFuture]
  | stop =>
      simp only [ContextOp.apply, ContextParts.stop]
      split <;> simp

theorem stopped_apply (p : ContextParts) (op : ContextOp) (h : p.flags.stopped = true) :
    (op.apply p).flags.stopped = true := by
  cases op with
  | spawn | wait | setMailboxCapacity | cancelFuture handle => exact h
  | terminate => rfl
  | stop =>
      simp only [ContextOp.apply, ContextParts.stop]
      split <;> exact h

theorem Numbered.frame (h : Numbered f) (hframe : Frame f f') : Numbered f' where
  distinct := hframe.distinct h.distinct
  bound item hitem := by
    rw [hframe.lastHandle]
    exact h.bound item (hframe.present.subset hitem)

theorem Numbered.spawn (h : Numbered f) : Numbered (f.withParts f.parts.spawn) where
  distinct handle := by
    rw [present_spawn, List.countP_append, List.countP_singleton]
    by_cases hhandle : f.parts.lastHandle + 1 = handle
    · have hnone : f.present.countP (fun item => item.handle = handle) = 0 := by
        refine List.countP_eq_zero.mpr fun item hitem => ?_
        have hbound := h.bound item hitem
        simp only [decide_eq_true_eq]
        omega
      simp [hnone, hhandle]
    · simpa [hhandle] using h.distinct handle
  bound item hitem := by
    rw [present_spawn, List.mem_append, List.mem_singleton] at hitem
    rcases hitem with hitem | rfl
    · exact (h.bound item hitem).trans (Nat.le_succ _)
    · exact le_rfl

theorem Numbered.apply (h : Numbered f) (op : ContextOp) :
    Numbered (f.withParts (op.apply f.parts)) := by
  by_cases hop : op = .spawn
  · subst hop
    exact h.spawn
  · obtain ⟨hpresent, hlast⟩ := present_apply f hop
    refine ⟨fun handle => by rw [hpresent]; exact h.distinct handle, fun item hitem => ?_⟩
    rw [hpresent] at hitem
    exact (h.bound item hitem).trans hlast.ge

theorem present_restart (f : ContextFut) : f.restart.present = [] := rfl

theorem numbered_of_present_nil (h : f.present = []) : Numbered f where
  distinct handle := by simp [h]
  bound item hitem := by simp [h] at hitem

end Handles

end ContextFut

end ActixPura
