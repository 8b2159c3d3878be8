import ActixPura.Runs

/-!
# Writing to a sink

`SinkWrite` and `SinkWriteFuture` of `io.rs`. `write` puts an item into the buffer, `close` sets a
flag, and the future drains the buffer into the sink. A poll borrows the shared state to its end, so
writes and closes fall between polls.

The sink is not modelled: each poll is given what the sink answers, to `poll_ready` as often as the
loop asks, and to `poll_flush` or `poll_close`. A sink without a further answer is pending.

The loop ends early when the sink is not ready, and the branch for a closing sink does not look at
the buffer before it calls `poll_close`, only after.
-/

namespace ActixPura

open Runs

inductive SinkAnswer
  | pending
  | ready
  | error
  deriving DecidableEq

/-- `stop` is the answer of the actor's `error`. -/
structure SinkAnswers where
  ready : List SinkAnswer
  flush : SinkAnswer
  close : SinkAnswer
  stop : Bool

inductive SinkEvent (I : Type)
  | accepted (item : I)
  | rejected (item : I)
  | sent (item : I)
  | flush
  | close
  | error
  | finished
  deriving DecidableEq

inductive SinkPoll
  | pending
  | ready
  | panicked
  deriving DecidableEq

/-- `task` says whether a waker is kept. -/
structure InnerSinkWrite (I : Type) where
  closing : Bool
  closed : Bool
  task : Bool
  buffer : List I

namespace InnerSinkWrite

variable {I : Type}

def new : InnerSinkWrite I := ⟨false, false, false, []⟩

/-- The loop of a poll: the items passed to `start_send` and those left. -/
def drain : List SinkAnswer → List I → List I × List I
  | .ready :: answers, item :: buffer =>
    let rest := drain answers buffer
    (item :: rest.1, rest.2)
  | _, buffer => ([], buffer)

def write (inner : InnerSinkWrite I) (item : I) : InnerSinkWrite I × SinkEvent I :=
  if inner.closing = false ∧ inner.closed = false then
    ({ inner with buffer := inner.buffer ++ [item] }, .accepted item)
  else (inner, .rejected item)

def close (inner : InnerSinkWrite I) : InnerSinkWrite I := { inner with closing := true }

def keepTask (inner : InnerSinkWrite I) : InnerSinkWrite I := { inner with task := true }

/-- What follows an answer that is an error. -/
def failed (inner : InnerSinkWrite I) (stop : Bool) :
    InnerSinkWrite I × SinkPoll × List (SinkEvent I) :=
  if stop then (inner, .ready, [.error, .finished]) else (inner.keepTask, .pending, [.error])

/-- A poll after its loop. -/
def settle (inner : InnerSinkWrite I) (answers : SinkAnswers) :
    InnerSinkWrite I × SinkPoll × List (SinkEvent I) :=
  if inner.closing = false then
    match answers.flush with
    | .error =>
      let rest := inner.failed answers.stop
      (rest.1, rest.2.1, .flush :: rest.2.2)
    | .ready | .pending => (inner.keepTask, .pending, [.flush])
  else if inner.closed then (inner, .panicked, [])
  else
    match answers.close with
    | .error =>
      let rest := inner.failed answers.stop
      (rest.1, rest.2.1, .close :: rest.2.2)
    | .ready =>
      if inner.buffer = [] then ({ inner with closed := true }, .ready, [.close, .finished])
      else (inner.keepTask, .pending, [.close])
    | .pending => (inner.keepTask, .pending, [.close])

def poll (inner : InnerSinkWrite I) (answers : SinkAnswers) :
    InnerSinkWrite I × SinkPoll × List (SinkEvent I) :=
  let drained := drain answers.ready inner.buffer
  let rest := settle { inner with buffer := drained.2 } answers
  (rest.1, rest.2.1, drained.1.map .sent ++ rest.2.2)

end InnerSinkWrite

inductive SinkAction (I : Type)
  | write (item : I)
  | close
  | poll (answers : SinkAnswers)

/-- The writer with the last answer of its future, which is polled again only when it was pending.
-/
structure SinkWrite (I : Type) where
  inner : InnerSinkWrite I
  future : SinkPoll
  log : List (SinkEvent I)

namespace SinkWrite

variable {I : Type}

def new : SinkWrite I := ⟨.new, .pending, []⟩

def step (s : SinkWrite I) : SinkAction I → SinkWrite I
  | .write item =>
    let written := s.inner.write item
    { s with inner := written.1, log := s.log ++ [written.2] }
  | .close => { s with inner := s.inner.close }
  | .poll answers =>
    if s.future = .pending then
      let polled := s.inner.poll answers
      ⟨polled.1, polled.2.1, s.log ++ polled.2.2⟩
    else s

def acceptedItems (es : List (SinkEvent I)) : List I :=
  es.filterMap fun
    | .accepted item => some item
    | _ => none

def sentItems (es : List (SinkEvent I)) : List I :=
  es.filterMap fun
    | .sent item => some item
    | _ => none

/-- The sink is only closed when every accepted item has been passed to it. -/
def ClosesDrained (s : SinkWrite I) : Prop :=
  Preceded (fun before e => e = .close → sentItems before = acceptedItems before) s.log

/-- A closing sink is ready for every item of the buffer when the future is polled. -/
def ReadyForAll (s : SinkWrite I) : SinkAction I → Prop
  | .poll answers => s.future = .pending → s.inner.closing = true →
    answers.ready.take s.inner.buffer.length = List.replicate s.inner.buffer.length .ready
  | _ => True

/-- What was accepted and not yet sent is in the buffer, and a closed sink is not polled again. -/
structure Balanced (s : SinkWrite I) : Prop where
  buffer : acceptedItems s.log = sentItems s.log ++ s.inner.buffer
  closed : s.inner.closed = true → s.future ≠ .pending
  sound : s.future ≠ .panicked

section Draining

open InnerSinkWrite

theorem drain_append (answers : List SinkAnswer) (buffer : List I) :
    (drain answers buffer).1 ++ (drain answers buffer).2 = buffer := by
  induction answers generalizing buffer with
  | nil => simp [drain]
  | cons answer answers ih =>
      cases buffer with
      | nil => cases answer <;> simp [drain]
      | cons item buffer =>
          cases answer with
          | ready => simp [drain, ih]
          | pending | error => simp [drain]

/-- The buffer is drained exactly when the sink is ready for each of its items. -/
theorem drain_eq_nil_iff (answers : List SinkAnswer) (buffer : List I) :
    (drain answers buffer).2 = [] ↔
      answers.take buffer.length = List.replicate buffer.length .ready := by
  induction answers generalizing buffer with
  | nil =>
      cases buffer with
      | nil => simp [drain]
      | cons item buffer => simp [drain, List.replicate_succ]
  | cons answer answers ih =>
      cases buffer with
      | nil => cases answer <;> simp [drain]
      | cons item buffer =>
          cases answer with
          | ready => simp [drain, ih, List.replicate_succ]
          | pending | error => simp [drain, List.replicate_succ]

@[simp] theorem acceptedItems_append (es xs : List (SinkEvent I)) :
    acceptedItems (es ++ xs) = acceptedItems es ++ acceptedItems xs := List.filterMap_append

@[simp] theorem sentItems_append (es xs : List (SinkEvent I)) :
    sentItems (es ++ xs) = sentItems es ++ sentItems xs := List.filterMap_append

theorem sentItems_map (items : List I) : sentItems (items.map .sent) = items := by
  simp [sentItems, List.filterMap_map]

theorem acceptedItems_map (items : List I) : acceptedItems (items.map .sent) = [] := by
  simp [acceptedItems, List.filterMap_map]

def Closing (e : SinkEvent I) : Prop := e = .error ∨ e = .finished

theorem sentItems_closing {es : List (SinkEvent I)} (h : ∀ e ∈ es, Closing e) :
    sentItems es = [] ∧ acceptedItems es = [] := by
  constructor
  · refine List.filterMap_eq_nil_iff.mpr fun e he => ?_
    rcases h e he with rfl | rfl <;> rfl
  · refine List.filterMap_eq_nil_iff.mpr fun e he => ?_
    rcases h e he with rfl | rfl <;> rfl

theorem failed_spec (inner : InnerSinkWrite I) (stop : Bool) :
    (inner.failed stop).1.buffer = inner.buffer ∧
      (inner.failed stop).1.closed = inner.closed ∧ (inner.failed stop).2.1 ≠ .panicked ∧
        ∀ e ∈ (inner.failed stop).2.2, Closing e := by
  cases stop <;> simp [failed, keepTask, Closing]

/-- What a poll does after its loop: it moves no item, and it calls `poll_close` exactly when the
sink is closing and not closed. -/
structure Settled (inner : InnerSinkWrite I)
    (result : InnerSinkWrite I × SinkPoll × List (SinkEvent I)) : Prop where
  buffer : result.1.buffer = inner.buffer
  closed : inner.closed = false → result.1.closed = true → result.2.1 = .ready
  sound : inner.closed = false ∨ inner.closing = false → result.2.1 ≠ .panicked
  events : ∃ first rest, result.2.2 = first ++ rest ∧ (∀ e ∈ rest, Closing e) ∧
    first = if inner.closing = false then [.flush] else if inner.closed then [] else [.close]

theorem settle_spec (inner : InnerSinkWrite I) (answers : SinkAnswers) :
    Settled inner (inner.settle answers) := by
  obtain ⟨closing, closed, task, buffer⟩ := inner
  obtain ⟨ready, flush, close, stop⟩ := answers
  have hfailed := failed_spec (⟨closing, closed, task, buffer⟩ : InnerSinkWrite I) stop
  obtain ⟨hbuffer, hclosed, hsound, hevents⟩ := hfailed
  cases closing with
  | false =>
      cases flush with
      | error =>
          refine ⟨hbuffer, fun hnot hyes => ?_, fun _ => hsound, [.flush], _, rfl, hevents, rfl⟩
          exact absurd (hnot.symm.trans (hclosed.symm.trans hyes)) Bool.false_ne_true
      | ready | pending =>
          refine ⟨rfl, fun hnot hyes => ?_, fun _ => SinkPoll.noConfusion, [.flush], [], rfl,
            by simp, rfl⟩
          exact absurd (hnot.symm.trans hyes) Bool.false_ne_true
  | true =>
      cases closed with
      | true => exact ⟨rfl, by simp, by simp, [], [], rfl, by simp, rfl⟩
      | false =>
          cases close with
          | error =>
              refine ⟨hbuffer, fun _ hyes => ?_, fun _ => hsound, [.close], _, rfl, hevents, rfl⟩
              exact absurd (hclosed.symm.trans hyes) Bool.false_ne_true
          | pending =>
              exact ⟨rfl, fun _ hyes => absurd hyes Bool.false_ne_true,
                fun _ => SinkPoll.noConfusion, [.close], [], rfl, by simp, rfl⟩
          | ready =>
              by_cases hnil : buffer = []
              · subst hnil
                exact ⟨rfl, fun _ _ => rfl, fun _ => SinkPoll.noConfusion, [.close], [.finished],
                  rfl, by simp [Closing], rfl⟩
              · have hsettle : settle ⟨true, false, task, buffer⟩ ⟨ready, flush, .ready, stop⟩ =
                    (keepTask ⟨true, false, task, buffer⟩, .pending, [.close]) := by
                  simp [settle, hnil]
                rw [hsettle]
                exact ⟨rfl, fun _ hyes => absurd hyes Bool.false_ne_true,
                  fun _ => SinkPoll.noConfusion, [.close], [], rfl, by simp, rfl⟩

end Draining

section Steps

variable {s : SinkWrite I}

theorem step_write (s : SinkWrite I) (item : I) : s.step (.write item) =
    if s.inner.closing = false ∧ s.inner.closed = false then
      ⟨{ s.inner with buffer := s.inner.buffer ++ [item] }, s.future, s.log ++ [.accepted item]⟩
    else ⟨s.inner, s.future, s.log ++ [.rejected item]⟩ := by
  simp only [step, InnerSinkWrite.write]
  split <;> rfl

/-- The events of a poll: the items it sends, the call after the loop, and what follows an error. -/
theorem step_poll (s : SinkWrite I) (answers : SinkAnswers) (hpending : s.future = .pending) :
    ∃ first rest : List (SinkEvent I),
      (s.step (.poll answers)).log = s.log ++
        ((InnerSinkWrite.drain answers.ready s.inner.buffer).1.map .sent ++ (first ++ rest)) ∧
      (∀ e ∈ rest, Closing e) ∧
      (first = if s.inner.closing = false then [.flush] else
        if s.inner.closed then [] else [.close]) ∧
      (s.step (.poll answers)).inner.buffer =
        (InnerSinkWrite.drain answers.ready s.inner.buffer).2 ∧
      (s.inner.closed = false → (s.step (.poll answers)).inner.closed = true →
        (s.step (.poll answers)).future = .ready) ∧
      (s.inner.closed = false → (s.step (.poll answers)).future ≠ .panicked) := by
  have hspec := settle_spec { s.inner with
    buffer := (InnerSinkWrite.drain answers.ready s.inner.buffer).2 } answers
  obtain ⟨first, rest, hevents, hrest, hfirst⟩ := hspec.events
  refine ⟨first, rest, ?_, hrest, hfirst, ?_, ?_, ?_⟩
  · simp only [step, hpending, if_true, InnerSinkWrite.poll, hevents]
  · simp only [step, hpending, if_true, InnerSinkWrite.poll]
    exact hspec.buffer
  · simp only [step, hpending, if_true, InnerSinkWrite.poll]
    exact hspec.closed
  · simp only [step, hpending, if_true, InnerSinkWrite.poll]
    exact fun hopen => hspec.sound (Or.inl hopen)

theorem sentItems_first {first : List (SinkEvent I)} {closing closed : Bool}
    (h : first = if closing = false then [.flush] else if closed then [] else [.close]) :
    sentItems first = [] ∧ acceptedItems first = [] := by
  subst h
  split_ifs <;> exact ⟨rfl, rfl⟩

theorem Balanced.isOpen (h : s.Balanced) (hpending : s.future = .pending) :
    s.inner.closed = false := by
  cases hnow : s.inner.closed with
  | false => rfl
  | true => exact absurd hpending (h.closed hnow)

theorem balanced_step {a : SinkAction I} (h : s.Balanced) : (s.step a).Balanced := by
  cases a with
  | write item =>
      rw [step_write]
      split
      · refine ⟨?_, h.closed, h.sound⟩
        simp only [acceptedItems_append, sentItems_append, h.buffer, List.append_assoc]
        rfl
      · refine ⟨?_, h.closed, h.sound⟩
        simp only [acceptedItems_append, sentItems_append, h.buffer, List.append_assoc]
        simp [acceptedItems, sentItems]
  | close => exact ⟨h.buffer, h.closed, h.sound⟩
  | poll answers =>
      by_cases hpending : s.future = .pending
      · obtain ⟨first, rest, hlog, hrest, hfirst, hbuffer, hclosed, hsound⟩ :=
          step_poll s answers hpending
        obtain ⟨hsent, haccepted⟩ := sentItems_first hfirst
        obtain ⟨hsent', haccepted'⟩ := sentItems_closing hrest
        have hopen := h.isOpen hpending
        refine ⟨?_, fun hyes => ?_, hsound hopen⟩
        · rw [hlog, hbuffer]
          simp only [acceptedItems_append, sentItems_append, sentItems_map, acceptedItems_map,
            hsent, haccepted, hsent', haccepted', List.append_nil, List.append_assoc,
            drain_append, h.buffer]
        · rw [hclosed hopen hyes]
          exact SinkPoll.noConfusion
      · simpa [step, hpending] using h

theorem preceded_of_notMem {R : List (SinkEvent I) → Prop} {es : List (SinkEvent I)}
    (h : .close ∉ es) : Preceded (fun before e => e = .close → R before) es := by
  rintro before e after rfl rfl
  exact absurd (by simp) h

theorem preceded_singleton {Q : List (SinkEvent I) → SinkEvent I → Prop} {e : SinkEvent I} :
    Preceded Q [e] ↔ Q [] e := by
  constructor
  · exact fun h => h [] e [] rfl
  · intro h before e' after heq
    obtain ⟨rfl, hrest⟩ := List.append_eq_singleton_iff.mp heq.symm |>.resolve_right (by simp)
    obtain ⟨rfl, -⟩ := List.cons.inj hrest
    exact h

theorem close_notMem_closing {es : List (SinkEvent I)} (h : ∀ e ∈ es, Closing e) :
    .close ∉ es := by
  intro hmem
  rcases h _ hmem with heq | heq <;> cases heq

/-- A call of `poll_close` in a poll finds every accepted item sent exactly when the sink was ready
for the whole buffer. -/
theorem closesDrained_poll_iff {answers : SinkAnswers} (hbalanced : s.Balanced)
    (h : s.ClosesDrained) (hpending : s.future = .pending) :
    (s.step (.poll answers)).ClosesDrained ↔ s.ReadyForAll (.poll answers) := by
  obtain ⟨first, rest, hlog, hrest, hfirst, -, -, -⟩ := step_poll s answers hpending
  have hsent : .close ∉ (InnerSinkWrite.drain answers.ready s.inner.buffer).1.map
      (SinkEvent.sent (I := I)) := by simp
  rw [ClosesDrained, hlog, preceded_append, preceded_append, preceded_append]
  simp only [ClosesDrained] at h
  simp only [h, preceded_of_notMem hsent, preceded_of_notMem (close_notMem_closing hrest), true_and,
    and_true, ReadyForAll, hpending, true_implies]
  cases hclosing : s.inner.closing with
  | false =>
      simp only [hclosing, if_true] at hfirst
      subst hfirst
      simp [preceded_singleton]
  | true =>
      have hopen := hbalanced.isOpen hpending
      simp only [hclosing, hopen, Bool.true_eq_false, Bool.false_eq_true, if_false] at hfirst
      subst hfirst
      have hdrained := drain_append answers.ready s.inner.buffer
      rw [preceded_singleton, ← drain_eq_nil_iff]
      simp only [List.append_nil, sentItems_append, sentItems_map, acceptedItems_append,
        acceptedItems_map, hbalanced.buffer, List.append_cancel_left_eq, true_implies]
      constructor
      · intro heq
        rw [heq] at hdrained
        simpa using hdrained
      · intro hnil
        rwa [hnil, List.append_nil] at hdrained

theorem readyForAll_iff {a : SinkAction I} (h : s.Balanced ∧ s.ClosesDrained) :
    s.ReadyForAll a ↔ (s.step a).Balanced ∧ (s.step a).ClosesDrained := by
  obtain ⟨hbalanced, hdrained⟩ := h
  have hnext := balanced_step (a := a) hbalanced
  cases a with
  | write item =>
      refine ⟨fun _ => ⟨hnext, ?_⟩, fun _ => trivial⟩
      rw [step_write]
      split <;> exact preceded_append.mpr ⟨hdrained, preceded_of_notMem (by simp)⟩
  | close => exact ⟨fun _ => ⟨hnext, hdrained⟩, fun _ => trivial⟩
  | poll answers =>
      by_cases hpending : s.future = .pending
      · rw [closesDrained_poll_iff hbalanced hdrained hpending]
        exact ⟨fun hok => ⟨hnext, hok⟩, And.right⟩
      · have hstep : s.step (.poll answers) = s := by simp [step, hpending]
        rw [hstep]
        exact ⟨fun _ => ⟨hbalanced, hdrained⟩, fun _ hyes => absurd hyes hpending⟩

end Steps

theorem balanced_run (as : List (SinkAction I)) : (run step (new : SinkWrite I) as).Balanced :=
  invariant_run_of_mem (fun _ _ _ hs => balanced_step hs)
    ⟨rfl, fun h => absurd h Bool.false_ne_true, SinkPoll.noConfusion⟩

/-- The items passed to the sink begin the accepted ones. The sink is closed only after all of them
exactly in the runs in which a closing sink is ready for the whole buffer at every poll. -/
theorem sink_closes_drained (as : List (SinkAction I)) :
    sentItems (run step new as).log <+: acceptedItems (run step new as).log ∧
    (Admissible step ReadyForAll new as ↔ ∀ before after, as = before ++ after →
      (run step new before).ClosesDrained) := by
  refine ⟨⟨_, (balanced_run as).buffer.symm⟩, ?_⟩
  have hnew : (new : SinkWrite I).Balanced ∧ (new : SinkWrite I).ClosesDrained :=
    ⟨balanced_run [], preceded_nil⟩
  rw [admissible_iff_forall_run (I := fun s : SinkWrite I => s.Balanced ∧ s.ClosesDrained)
    (fun s a => readyForAll_iff (s := s) (a := a)) hnew]
  constructor
  · exact fun h before after heq => (h before after heq).2
  · exact fun h before after heq => ⟨balanced_run before, h before after heq⟩

/-- An item is written, the sink is closed, and it is not ready when the future is polled. -/
def busySink : List (SinkAction ℕ) :=
  [.write 7, .close, .poll ⟨[.pending], .pending, .pending, false⟩]

theorem not_sink_closes_drained :
    ¬ ∀ (I : Type) (as : List (SinkAction I)),
      sentItems (run step new as).log <+: acceptedItems (run step new as).log ∧
        (run step new as).ClosesDrained := by
  intro h
  have hlog : (run step new busySink).log = [.accepted 7] ++ .close :: [] := by decide
  have hdrained := (h ℕ busySink).2 [.accepted 7] .close [] hlog rfl
  revert hdrained
  decide

end SinkWrite

end ActixPura
