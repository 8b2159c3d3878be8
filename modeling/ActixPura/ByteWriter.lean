import ActixPura.Runs

/-!
# Writing bytes to a stream

`Writer` and `FramedWrite` of `io.rs`, with the futures `WriterFut` and `WriterDrain` that share
their state. A write appends to the buffer, `WriterFut` passes the buffer to the stream, and where
the stream would block with more than `high` bytes left the context waits for `WriterDrain`, which
brings the buffer under `low` before the actor runs again.

The stream is not modelled: a poll is given what `poll_write` answers, as often as the loop asks,
and what `poll_flush` answers. A poll whose answers run out has not returned, and neither has one
whose stream claims more bytes than it was given, where `split_to` panics; such a poll is no step.
The actor's `error` sees the errors it was told before and the new one.

The history variable `heard` keeps the answers of the stream and of the encoders that the code
looked at, and `raised` is the list of the errors among them, to be compared with `told`.
-/

namespace ActixPura

open Runs

inductive IoErrorKind
  | wouldBlock
  | writeZero
  | other
  deriving DecidableEq

structure IoError where
  kind : IoErrorKind
  text : String
  deriving DecidableEq

def IoError.writeZero : IoError := ⟨.writeZero, "failed to write frame to transport"⟩

inductive Running
  | stop
  | continue
  deriving DecidableEq

inductive WriteAnswer
  | wrote (n : ℕ)
  | failed (error : IoError)
  | pending

inductive FlushAnswer
  | flushed
  | failed (error : IoError)
  | pending

/-- An answer that the code looked at. -/
inductive Heard (E : Type)
  | write (answer : WriteAnswer)
  | flush (answer : FlushAnswer)
  | encoded (error : Option E)

/-- To take no byte at all is an error, and to block is none. -/
def Heard.error {E : Type} (into : IoError → E) : Heard E → Option E
  | .write (.wrote n) => if n = 0 then some (into .writeZero) else none
  | .write (.failed e) | .flush (.failed e) =>
    if e.kind = .wouldBlock then none else some (into e)
  | .encoded error => error
  | .write .pending | .flush .flushed | .flush .pending => none

def lowWatermark : ℕ := 4 * 1024

def highWatermark : ℕ := 4 * lowWatermark

structure InnerWriter (E : Type) where
  closing : Bool
  closed : Bool
  buffer : List UInt8
  error : Option E
  low : ℕ
  high : ℕ
  task : Bool

/-- How the loop of `WriterFut::poll` is left. -/
inductive LoopEnd
  | drained
  | stopped
  | pending
  | blocked
  deriving DecidableEq

/-- The shared state with the bytes that the stream took. `future` says whether `WriterFut` is still
polled and `draining` whether the context waits for `WriterDrain`. -/
structure Writer (E : Type) where
  inner : InnerWriter E
  wire : List UInt8
  heard : List (Heard E)
  told : List E
  future : Bool
  draining : Bool
  finished : ℕ

inductive WriterAction (E : Type)
  | write (msg : List UInt8)
  | encode (bytes : List UInt8) (error : Option E)
  | close
  | setBufferCapacity (low high : ℕ)
  | poll (act : List E → E → Running) (answers : List WriteAnswer) (flush : FlushAnswer)
  | drain (answers : List WriteAnswer)

namespace Writer

variable {E : Type}

def fromBuffer (buffer : List UInt8) : Writer E where
  inner := ⟨false, false, buffer, none, lowWatermark, highWatermark, false⟩
  wire := []
  heard := []
  told := []
  future := true
  draining := false
  finished := 0

def new : Writer E := fromBuffer []

def write (s : Writer E) (msg : List UInt8) : Writer E :=
  { s with inner := { s.inner with buffer := s.inner.buffer ++ msg, task := false } }

def hear (s : Writer E) (answer : Heard E) : Writer E := { s with heard := s.heard ++ [answer] }

/-- `FramedWrite::write`, where `bytes` is what the encoder appends before it fails or ends. -/
def encode (s : Writer E) (bytes : List UInt8) (error : Option E) : Writer E :=
  let s := s.hear (.encoded error)
  match error with
  | none => s.write bytes
  | some e =>
    { s with inner := { s.inner with
        buffer := s.inner.buffer ++ bytes, error := some e, task := false } }

def close (s : Writer E) : Writer E := { s with inner := { s.inner with closing := true } }

def setBufferCapacity (s : Writer E) (low high : ℕ) : Writer E :=
  { s with inner := { s.inner with low := low, high := high } }

/-- The stream took `n` bytes from the front of the buffer. -/
def took (s : Writer E) (n : ℕ) : Writer E :=
  { s with
    wire := s.wire ++ s.inner.buffer.take n
    inner := { s.inner with buffer := s.inner.buffer.drop n } }

/-- An error is told to the actor. -/
def report (s : Writer E) (e : E) : Writer E := { s with told := s.told ++ [e] }

/-- An error is kept for the next poll of `WriterFut`. -/
def keep (s : Writer E) (e : E) : Writer E := { s with inner := { s.inner with error := some e } }

def takeError (s : Writer E) (e : E) : Writer E :=
  { s with told := s.told ++ [e], inner := { s.inner with error := none } }

def keepTask (s : Writer E) (task : Bool) : Writer E :=
  { s with inner := { s.inner with task := task } }

def finish (s : Writer E) : Writer E := { s with future := false, finished := s.finished + 1 }

def closeDone (s : Writer E) : Writer E := { s with inner := { s.inner with closed := true } }

section Polls

variable (into : IoError → E)

def raised (s : Writer E) : List E := s.heard.filterMap (Heard.error into)

/-- The loop of `WriterFut::poll`. -/
def pollWrite (act : List E → E → Running) :
    List WriteAnswer → Writer E → Option (Writer E × LoopEnd)
  | [], s => if s.inner.buffer = [] then some (s, .drained) else none
  | answer :: answers, s =>
    if s.inner.buffer = [] then some (s, .drained) else
    let s := s.hear (.write answer)
    match answer with
    | .wrote n =>
      if s.inner.buffer.length < n then none
      else if n = 0 then
        if act s.told (into .writeZero) = .stop then some (s.report (into .writeZero), .stopped)
        else pollWrite act answers ((s.report (into .writeZero)).took n)
      else pollWrite act answers (s.took n)
    | .failed e =>
      if e.kind = .wouldBlock then
        some (s, if s.inner.high < s.inner.buffer.length then .blocked else .pending)
      else if act s.told (into e) = .stop then some (s.report (into e), .stopped)
      else pollWrite act answers (s.report (into e))
    | .pending => some (s, .pending)

def settle (s : Writer E) : Writer E :=
  if s.inner.closing then s.closeDone.finish else s.keepTask true

def pollFlush (act : List E → E → Running) (s : Writer E) (answer : FlushAnswer) : Writer E :=
  let s := s.hear (.flush answer)
  match answer with
  | .flushed => s.settle
  | .pending => s
  | .failed e =>
    if e.kind = .wouldBlock then s
    else if act s.told (into e) = .stop then (s.report (into e)).finish
    else (s.report (into e)).settle

/-- A poll of `WriterFut` once no error is kept. -/
def pollIo (act : List E → E → Running) (answers : List WriteAnswer) (flush : FlushAnswer)
    (s : Writer E) : Option (Writer E) :=
  match pollWrite into act answers (s.keepTask false) with
  | none => none
  | some (s, .drained) => some (s.pollFlush into act flush)
  | some (s, .stopped) => some s.finish
  | some (s, .pending) => some s
  | some (s, .blocked) => some { s with draining := true }

def poll (act : List E → E → Running) (answers : List WriteAnswer) (flush : FlushAnswer)
    (s : Writer E) : Option (Writer E) :=
  match s.inner.error with
  | none => s.pollIo into act answers flush
  | some e =>
    if act s.told e = .stop then some (s.takeError e).finish
    else (s.takeError e).pollIo into act answers flush

/-- The loop of `WriterDrain::poll`, with whether the future is ready. -/
def drainWrite : List WriteAnswer → Writer E → Option (Writer E × Bool)
  | [], s => if s.inner.buffer = [] then some (s, true) else none
  | answer :: answers, s =>
    if s.inner.buffer = [] then some (s, true) else
    let s := s.hear (.write answer)
    match answer with
    | .wrote n =>
      if s.inner.buffer.length < n then none
      else if n = 0 then some (s.keep (into .writeZero), true)
      else drainWrite answers (s.took n)
    | .failed e =>
      if e.kind = .wouldBlock then some (s, decide (s.inner.buffer.length < s.inner.low))
      else some (s.keep (into e), true)
    | .pending => some (s, false)

def pollDrain (answers : List WriteAnswer) (s : Writer E) : Option (Writer E × Bool) :=
  if s.inner.error.isSome then some (s, true) else drainWrite into answers s

/-- The context polls `WriterFut` only while it waits for no `WriterDrain`. -/
def step (s : Writer E) : WriterAction E → Writer E
  | .write msg => s.write msg
  | .encode bytes error => s.encode bytes error
  | .close => s.close
  | .setBufferCapacity low high => s.setBufferCapacity low high
  | .poll act answers flush =>
    if s.future = true ∧ s.draining = false then (s.poll into act answers flush).getD s else s
  | .drain answers =>
    if s.draining then
      match s.pollDrain into answers with
      | none => s
      | some (t, ready) => { t with draining := !ready }
    else s

end Polls

/-- The bytes that an action puts into the buffer. -/
def bytesOf : WriterAction E → List UInt8
  | .write msg => msg
  | .encode bytes _ => bytes
  | _ => []

def written (as : List (WriterAction E)) : List UInt8 := as.flatMap bytesOf

@[simp] theorem written_nil : written ([] : List (WriterAction E)) = [] := rfl

@[simp] theorem written_append (as bs : List (WriterAction E)) :
    written (as ++ bs) = written as ++ written bs := List.flatMap_append

@[simp] theorem written_singleton (a : WriterAction E) : written [a] = bytesOf a := by
  simp [written]

/-- What exchanges with the stream and the actor leave as it was: no byte is lost or moved, and
every error raised is told or kept, in order. -/
structure Talked (into : IoError → E) (s t : Writer E) : Prop where
  bytes : t.wire ++ t.inner.buffer = s.wire ++ s.inner.buffer
  closing : t.inner.closing = s.inner.closing
  closed : t.inner.closed = s.inner.closed
  future : t.future = s.future
  draining : t.draining = s.draining
  finished : t.finished = s.finished
  errors : ∃ new, t.raised into = s.raised into ++ new ∧
    t.told ++ t.inner.error.toList = s.told ++ s.inner.error.toList ++ new

/-- What a poll of `WriterFut` does after it talked to the stream. It closes only with an empty
buffer, and it lets the context wait only with more than `high` bytes left. -/
inductive Ends (t : Writer E) : Writer E → Prop
  | pending : Ends t t
  | finished : Ends t t.finish
  | waits (full : t.inner.high < t.inner.buffer.length) : Ends t { t with draining := true }
  | closed (closing : t.inner.closing = true) (empty : t.inner.buffer = []) :
      Ends t t.closeDone.finish

/-- What a step does: an operation of the actor, an exchange with the stream, or nothing. -/
inductive Steps (into : IoError → E) (s : Writer E) : WriterAction E → Writer E → Prop
  | write (msg) : Steps into s (.write msg) (s.write msg)
  | encode (bytes error) : Steps into s (.encode bytes error) (s.encode bytes error)
  | close : Steps into s .close s.close
  | setBufferCapacity (low high) :
      Steps into s (.setBufferCapacity low high) (s.setBufferCapacity low high)
  | idle {act answers flush} : Steps into s (.poll act answers flush) s
  | waiting {answers} : Steps into s (.drain answers) s
  | polled {act answers flush t u} (live : s.future = true) (free : s.draining = false)
      (talked : Talked into s t) (ends : Ends t u) : Steps into s (.poll act answers flush) u
  | drained {answers t} (ready : Bool) (waiting : s.draining = true) (talked : Talked into s t)
      (relief : ready = true →
        t.inner.error.isSome ∨ t.inner.buffer = [] ∨ t.inner.buffer.length < t.inner.low) :
      Steps into s (.drain answers) { t with draining := !ready }

section Talking

variable {into : IoError → E} {act : List E → E → Running} {answers : List WriteAnswer}
  {flush : FlushAnswer} {s t u : Writer E}

theorem Talked.refl (s : Writer E) : Talked into s s :=
  ⟨rfl, rfl, rfl, rfl, rfl, rfl, [], by simp, by simp⟩

theorem Talked.trans (hst : Talked into s t) (htu : Talked into t u) : Talked into s u := by
  obtain ⟨new, hraised, htold⟩ := hst.errors
  obtain ⟨new', hraised', htold'⟩ := htu.errors
  refine ⟨htu.bytes.trans hst.bytes, htu.closing.trans hst.closing, htu.closed.trans hst.closed,
    htu.future.trans hst.future, htu.draining.trans hst.draining, htu.finished.trans hst.finished,
    new ++ new', ?_, ?_⟩
  · rw [hraised', hraised, List.append_assoc]
  · rw [htold', htold, List.append_assoc]

theorem talked_took (into : IoError → E) (s : Writer E) (n : ℕ) : Talked into s (s.took n) := by
  refine ⟨?_, rfl, rfl, rfl, rfl, rfl, [], by simp [took, raised], by simp [took]⟩
  simp [took, List.append_assoc]

theorem talked_keepTask (into : IoError → E) (s : Writer E) (task : Bool) :
    Talked into s (s.keepTask task) :=
  ⟨rfl, rfl, rfl, rfl, rfl, rfl, [], by simp [keepTask, raised], by simp [keepTask]⟩

theorem raised_hear (into : IoError → E) (s : Writer E) (answer : Heard E) :
    (s.hear answer).raised into = s.raised into ++ (answer.error into).toList := by
  rw [raised, hear, List.filterMap_append]
  cases h : answer.error into <;> simp [raised, h]

/-- An answer without an error. -/
theorem talked_hear (answer : Heard E) (h : answer.error into = none) :
    Talked into s (s.hear answer) :=
  ⟨rfl, rfl, rfl, rfl, rfl, rfl, [], by simp [raised_hear, h], by simp [hear]⟩

/-- An error that is told at once. -/
theorem talked_report (answer : Heard E) {e : E} (h : s.inner.error = none)
    (herror : answer.error into = some e) : Talked into s ((s.hear answer).report e) :=
  ⟨rfl, rfl, rfl, rfl, rfl, rfl, [e], by rw [← Option.toList_some, ← herror, ← raised_hear]; rfl,
    by simp [report, hear, h]⟩

/-- An error that is kept. -/
theorem talked_keep (answer : Heard E) {e : E} (h : s.inner.error = none)
    (herror : answer.error into = some e) : Talked into s ((s.hear answer).keep e) :=
  ⟨rfl, rfl, rfl, rfl, rfl, rfl, [e], by rw [← Option.toList_some, ← herror, ← raised_hear]; rfl,
    by simp [keep, hear, h]⟩

theorem talked_takeError {e : E} (h : s.inner.error = some e) : Talked into s (s.takeError e) :=
  ⟨rfl, rfl, rfl, rfl, rfl, rfl, [], by simp [takeError, raised], by simp [takeError, h]⟩

theorem pollWrite_nil (into : IoError → E) (act : List E → E → Running)
    (answers : List WriteAnswer) (hnil : s.inner.buffer = []) :
    pollWrite into act answers s = some (s, .drained) := by
  cases answers <;> simp [pollWrite, hnil]

theorem drainWrite_nil (into : IoError → E) (answers : List WriteAnswer)
    (hnil : s.inner.buffer = []) : drainWrite into answers s = some (s, true) := by
  cases answers <;> simp [drainWrite, hnil]

theorem pollWrite_spec {ending : LoopEnd} (h : pollWrite into act answers s = some (t, ending))
    (herror : s.inner.error = none) : Talked into s t ∧ t.inner.error = none ∧
      (ending = .drained → t.inner.buffer = []) ∧
      (ending = .blocked → t.inner.high < t.inner.buffer.length) := by
  induction answers generalizing s with
  | nil =>
      by_cases hnil : s.inner.buffer = []
      · rw [pollWrite_nil into act [] hnil] at h
        obtain ⟨rfl, rfl⟩ := Prod.mk.inj (Option.some.inj h)
        exact ⟨.refl s, herror, fun _ => hnil, LoopEnd.noConfusion⟩
      · simp [pollWrite, hnil] at h
  | cons answer answers ih =>
      by_cases hnil : s.inner.buffer = []
      · rw [pollWrite_nil into act _ hnil] at h
        obtain ⟨rfl, rfl⟩ := Prod.mk.inj (Option.some.inj h)
        exact ⟨.refl s, herror, fun _ => hnil, LoopEnd.noConfusion⟩
      cases answer with
      | pending =>
          simp only [pollWrite, if_neg hnil, Option.some.injEq, Prod.mk.injEq] at h
          obtain ⟨rfl, rfl⟩ := h
          exact ⟨talked_hear (.write .pending) rfl, herror, LoopEnd.noConfusion,
            LoopEnd.noConfusion⟩
      | wrote n =>
          simp only [pollWrite, if_neg hnil] at h
          split_ifs at h with hmany hzero hstop
          · obtain ⟨rfl, rfl⟩ := Prod.mk.inj (Option.some.inj h)
            exact ⟨talked_report (.write (.wrote n)) herror (if_pos hzero), herror,
              LoopEnd.noConfusion, LoopEnd.noConfusion⟩
          · obtain ⟨htalked, hrest⟩ := ih h herror
            exact ⟨(talked_report (.write (.wrote n)) herror (if_pos hzero)).trans
              ((talked_took into _ n).trans htalked), hrest⟩
          · obtain ⟨htalked, hrest⟩ := ih h herror
            exact ⟨(talked_hear (.write (.wrote n)) (if_neg hzero)).trans
              ((talked_took into _ n).trans htalked), hrest⟩
      | failed e =>
          simp only [pollWrite, if_neg hnil] at h
          split_ifs at h with hblock hhigh hstop
          · obtain ⟨rfl, rfl⟩ := Prod.mk.inj (Option.some.inj h)
            exact ⟨talked_hear (.write (.failed e)) (if_pos hblock), herror, LoopEnd.noConfusion,
              fun _ => hhigh⟩
          · obtain ⟨rfl, rfl⟩ := Prod.mk.inj (Option.some.inj h)
            exact ⟨talked_hear (.write (.failed e)) (if_pos hblock), herror, LoopEnd.noConfusion,
              LoopEnd.noConfusion⟩
          · obtain ⟨rfl, rfl⟩ := Prod.mk.inj (Option.some.inj h)
            exact ⟨talked_report (.write (.failed e)) herror (if_neg hblock), herror,
              LoopEnd.noConfusion, LoopEnd.noConfusion⟩
          · obtain ⟨htalked, hrest⟩ := ih h herror
            exact ⟨(talked_report (.write (.failed e)) herror (if_neg hblock)).trans htalked, hrest⟩

theorem settle_spec (into : IoError → E) (hnil : s.inner.buffer = []) :
    ∃ t, Talked into s t ∧ Ends t s.settle := by
  unfold settle
  split_ifs with hclosing
  · exact ⟨s, .refl s, .closed hclosing hnil⟩
  · exact ⟨_, talked_keepTask into s true, .pending⟩

theorem pollFlush_spec (herror : s.inner.error = none) (hnil : s.inner.buffer = []) :
    ∃ t, Talked into s t ∧ Ends t (s.pollFlush into act flush) := by
  cases flush with
  | flushed =>
      obtain ⟨t, htalked, hends⟩ := settle_spec into (s := s.hear (.flush .flushed)) hnil
      exact ⟨t, (talked_hear (.flush .flushed) rfl).trans htalked, hends⟩
  | pending => exact ⟨_, talked_hear (.flush .pending) rfl, .pending⟩
  | failed e =>
      simp only [pollFlush]
      split_ifs with hblock hstop
      · exact ⟨_, talked_hear (.flush (.failed e)) (if_pos hblock), .pending⟩
      · exact ⟨_, talked_report (.flush (.failed e)) herror (if_neg hblock), .finished⟩
      · have hreport : Talked into s ((s.hear (.flush (.failed e))).report (into e)) :=
          talked_report (.flush (.failed e)) herror (if_neg hblock)
        obtain ⟨t, htalked, hends⟩ :=
          settle_spec into (s := (s.hear (.flush (.failed e))).report (into e)) hnil
        exact ⟨t, hreport.trans htalked, hends⟩

theorem pollIo_spec (h : s.pollIo into act answers flush = some u) (herror : s.inner.error = none) :
    ∃ t, Talked into s t ∧ Ends t u := by
  have hkeep := talked_keepTask into s false
  unfold pollIo at h
  cases hloop : pollWrite into act answers (s.keepTask false) with
  | none => simp [hloop] at h
  | some result =>
      obtain ⟨t, ending⟩ := result
      obtain ⟨htalked, herror', hdrained, hblocked⟩ := pollWrite_spec hloop herror
      have hst := hkeep.trans htalked
      rw [hloop] at h
      cases ending with
      | stopped =>
          obtain rfl := Option.some.inj h
          exact ⟨t, hst, .finished⟩
      | pending =>
          obtain rfl := Option.some.inj h
          exact ⟨t, hst, .pending⟩
      | blocked =>
          obtain rfl := Option.some.inj h
          exact ⟨t, hst, .waits (hblocked rfl)⟩
      | drained =>
          obtain rfl := Option.some.inj h
          obtain ⟨v, htv, hends⟩ : ∃ v, Talked into t v ∧ Ends v (t.pollFlush into act flush) :=
            pollFlush_spec herror' (hdrained rfl)
          exact ⟨v, hst.trans htv, hends⟩

theorem poll_spec (h : s.poll into act answers flush = some u) :
    ∃ t, Talked into s t ∧ Ends t u := by
  unfold poll at h
  cases herror : s.inner.error with
  | none =>
      rw [herror] at h
      exact pollIo_spec h herror
  | some e =>
      have htaken : Talked into s (s.takeError e) := talked_takeError herror
      simp only [herror] at h
      split_ifs at h with hstop
      · obtain rfl := Option.some.inj h
        exact ⟨_, htaken, .finished⟩
      · obtain ⟨t, htalked, hends⟩ := pollIo_spec h rfl
        exact ⟨t, htaken.trans htalked, hends⟩

/-- The actor runs again when an error is kept for it, or the buffer is empty or under `low`. -/
theorem drainWrite_spec {ready : Bool} (h : drainWrite into answers s = some (t, ready))
    (herror : s.inner.error = none) : Talked into s t ∧ (ready = true →
      t.inner.error.isSome ∨ t.inner.buffer = [] ∨ t.inner.buffer.length < t.inner.low) := by
  induction answers generalizing s with
  | nil =>
      by_cases hnil : s.inner.buffer = []
      · rw [drainWrite_nil into [] hnil] at h
        obtain ⟨rfl, rfl⟩ := Prod.mk.inj (Option.some.inj h)
        exact ⟨.refl s, fun _ => Or.inr (Or.inl hnil)⟩
      · simp [drainWrite, hnil] at h
  | cons answer answers ih =>
      by_cases hnil : s.inner.buffer = []
      · rw [drainWrite_nil into _ hnil] at h
        obtain ⟨rfl, rfl⟩ := Prod.mk.inj (Option.some.inj h)
        exact ⟨.refl s, fun _ => Or.inr (Or.inl hnil)⟩
      cases answer with
      | pending =>
          simp only [drainWrite, if_neg hnil, Option.some.injEq, Prod.mk.injEq] at h
          obtain ⟨rfl, rfl⟩ := h
          exact ⟨talked_hear (.write .pending) rfl, fun hready => absurd hready Bool.false_ne_true⟩
      | wrote n =>
          simp only [drainWrite, if_neg hnil] at h
          split_ifs at h with hmany hzero
          · obtain ⟨rfl, rfl⟩ := Prod.mk.inj (Option.some.inj h)
            exact ⟨talked_keep (.write (.wrote n)) herror (if_pos hzero), fun _ => Or.inl rfl⟩
          · obtain ⟨htalked, hrest⟩ := ih h herror
            exact ⟨(talked_hear (.write (.wrote n)) (if_neg hzero)).trans
              ((talked_took into _ n).trans htalked), hrest⟩
      | failed e =>
          simp only [drainWrite, if_neg hnil] at h
          split_ifs at h with hblock
          · obtain ⟨rfl, rfl⟩ := Prod.mk.inj (Option.some.inj h)
            exact ⟨talked_hear (.write (.failed e)) (if_pos hblock),
              fun hready => Or.inr (Or.inr (of_decide_eq_true hready))⟩
          · obtain ⟨rfl, rfl⟩ := Prod.mk.inj (Option.some.inj h)
            exact ⟨talked_keep (.write (.failed e)) herror (if_neg hblock), fun _ => Or.inl rfl⟩

theorem pollDrain_spec {ready : Bool} (h : s.pollDrain into answers = some (t, ready)) :
    Talked into s t ∧ (ready = true →
      t.inner.error.isSome ∨ t.inner.buffer = [] ∨ t.inner.buffer.length < t.inner.low) := by
  unfold pollDrain at h
  split_ifs at h with hsome
  · obtain ⟨rfl, rfl⟩ := Prod.mk.inj (Option.some.inj h)
    exact ⟨.refl s, fun _ => Or.inl hsome⟩
  · exact drainWrite_spec h (by simpa using hsome)

theorem step_spec (into : IoError → E) (s : Writer E) (a : WriterAction E) :
    Steps into s a (step into s a) := by
  cases a with
  | write msg => exact .write msg
  | encode bytes error => exact .encode bytes error
  | close => exact .close
  | setBufferCapacity low high => exact .setBufferCapacity low high
  | poll act answers flush =>
      simp only [step]
      split_ifs with hlive
      · cases hpoll : s.poll into act answers flush with
        | none => exact .idle
        | some u =>
            obtain ⟨t, htalked, hends⟩ := poll_spec hpoll
            exact .polled hlive.1 hlive.2 htalked hends
      · exact .idle
  | drain answers =>
      simp only [step]
      split_ifs with hwaiting
      · cases hdrain : s.pollDrain into answers with
        | none => exact .waiting
        | some result =>
            obtain ⟨t, ready⟩ := result
            obtain ⟨htalked, hrelief⟩ := pollDrain_spec hdrain
            exact .drained ready hwaiting htalked hrelief
      · exact .waiting

end Talking

section Runs

variable {into : IoError → E} {s : Writer E} {a : WriterAction E} {as : List (WriterAction E)}

theorem Ends.bytes {t u : Writer E} (h : Ends t u) :
    u.wire ++ u.inner.buffer = t.wire ++ t.inner.buffer := by
  cases h <;> rfl

theorem Ends.errors (into : IoError → E) {t u : Writer E} (h : Ends t u) :
    u.raised into = t.raised into ∧
      u.told ++ u.inner.error.toList = t.told ++ t.inner.error.toList := by
  cases h <;> exact ⟨rfl, rfl⟩

theorem bytes_step (into : IoError → E) (s : Writer E) (a : WriterAction E) :
    (step into s a).wire ++ (step into s a).inner.buffer =
      s.wire ++ s.inner.buffer ++ bytesOf a := by
  have hsteps := step_spec into s a
  generalize step into s a = u at hsteps
  cases hsteps with
  | write msg => exact (List.append_assoc ..).symm
  | encode bytes error =>
      cases error with
      | none => exact (List.append_assoc ..).symm
      | some e => exact (List.append_assoc ..).symm
  | close | setBufferCapacity | idle | waiting => exact (List.append_nil _).symm
  | polled live free talked ends =>
      exact (ends.bytes.trans talked.bytes).trans (List.append_nil _).symm
  | drained ready waiting talked relief => exact talked.bytes.trans (List.append_nil _).symm

theorem bytes_run (into : IoError → E) (buffer : List UInt8) (as : List (WriterAction E)) :
    (run (step into) (fromBuffer buffer) as).wire ++
      (run (step into) (fromBuffer buffer) as).inner.buffer = buffer ++ written as := by
  induction as using List.reverseRecOn with
  | nil => simp [fromBuffer]
  | append_singleton as a ih =>
      rw [run_append, run_cons, run_nil, bytes_step, ih, written_append, written_singleton,
        List.append_assoc]

/-- The context waits for a drain only while the writer is polled, a closed writer is polled no
more, and the actor is told once that the writer has finished. -/
structure Sound (s : Writer E) : Prop where
  draining : s.draining = true → s.future = true
  closed : s.inner.closed = true → s.future = false ∧ s.inner.closing = true
  finished : s.finished = if s.future then 0 else 1

theorem sound_fromBuffer (buffer : List UInt8) : (fromBuffer buffer : Writer E).Sound :=
  ⟨fun h => absurd h Bool.false_ne_true, fun h => absurd h Bool.false_ne_true, rfl⟩

theorem Sound.talked {t : Writer E} (h : s.Sound) (htalked : Talked into s t) : t.Sound := by
  refine ⟨fun hdraining => ?_, fun hclosed => ?_, ?_⟩
  · rw [htalked.future]
    exact h.draining (htalked.draining.symm.trans hdraining)
  · rw [htalked.future, htalked.closing]
    exact h.closed (htalked.closed.symm.trans hclosed)
  · rw [htalked.finished, htalked.future]
    exact h.finished

theorem Sound.ends {t u : Writer E} (h : t.Sound) (hlive : t.future = true)
    (hfree : t.draining = false) (hends : Ends t u) : u.Sound := by
  have hopen : t.inner.closed ≠ true := fun hclosed => by
    exact Bool.eq_false_iff.mp (h.closed hclosed).1 hlive
  have hnone : t.finished = 0 := by simpa [hlive] using h.finished
  cases hends with
  | pending => exact h
  | finished =>
      refine ⟨fun hyes => absurd (hfree.symm.trans hyes) Bool.false_ne_true,
        fun hclosed => absurd hclosed hopen, ?_⟩
      simp [finish, hnone]
  | waits full => exact ⟨fun _ => hlive, fun hclosed => absurd hclosed hopen, h.finished⟩
  | closed closing empty =>
      refine ⟨fun hyes => absurd (hfree.symm.trans hyes) Bool.false_ne_true,
        fun _ => ⟨rfl, closing⟩, ?_⟩
      simp [finish, closeDone, hnone]

theorem sound_step (h : s.Sound) (into : IoError → E) (a : WriterAction E) :
    (step into s a).Sound := by
  have hsteps := step_spec into s a
  generalize step into s a = u at hsteps
  cases hsteps with
  | write msg => exact ⟨h.draining, h.closed, h.finished⟩
  | encode bytes error =>
      cases error with
      | none => exact ⟨h.draining, h.closed, h.finished⟩
      | some e => exact ⟨h.draining, h.closed, h.finished⟩
  | close => exact ⟨h.draining, fun hclosed => ⟨(h.closed hclosed).1, rfl⟩, h.finished⟩
  | setBufferCapacity low high => exact ⟨h.draining, h.closed, h.finished⟩
  | idle | waiting => exact h
  | polled live free talked ends =>
      exact (h.talked talked).ends (talked.future.trans live) (talked.draining.trans free) ends
  | drained ready waiting talked relief =>
      have ht := h.talked talked
      exact ⟨fun _ => talked.future.trans (h.draining waiting), ht.closed, ht.finished⟩

theorem sound_run (into : IoError → E) (buffer : List UInt8) (as : List (WriterAction E)) :
    (run (step into) (fromBuffer buffer) as).Sound :=
  invariant_run_of_mem (I := Sound) (fun _ a _ hs => sound_step hs into a) (sound_fromBuffer buffer)

/-- The stream has taken what was written, in order and once, up to what is still in the buffer. The
context waits only for a writer it still polls, and the actor is told once that it has finished. -/
theorem bytes_in_order (into : IoError → E) (buffer : List UInt8) (as : List (WriterAction E)) :
    (run (step into) (fromBuffer buffer) as).wire ++
        (run (step into) (fromBuffer buffer) as).inner.buffer = buffer ++ written as ∧
      ((run (step into) (fromBuffer buffer) as).draining = true →
        (run (step into) (fromBuffer buffer) as).future = true) ∧
      (run (step into) (fromBuffer buffer) as).finished =
        if (run (step into) (fromBuffer buffer) as).future then 0 else 1 :=
  ⟨bytes_run into buffer as, (sound_run into buffer as).draining,
    (sound_run into buffer as).finished⟩

/-- A step that finds the writer open and leaves it closed follows a call of `close` and leaves the
buffer empty. -/
theorem closing_step (h : s.inner.closed = false) (hclosed : (step into s a).inner.closed = true) :
    s.inner.closing = true ∧ (step into s a).inner.buffer = [] := by
  have hsteps := step_spec into s a
  generalize step into s a = u at hsteps hclosed
  have hstill {P : Prop} (hyes : s.inner.closed = true) : P :=
    absurd (h.symm.trans hyes) Bool.false_ne_true
  cases hsteps with
  | encode bytes error =>
      cases error with
      | none => exact hstill hclosed
      | some e => exact hstill hclosed
  | write | close | setBufferCapacity | idle | waiting => exact hstill hclosed
  | polled live free talked ends =>
      cases ends with
      | closed closing empty => exact ⟨talked.closing.symm.trans closing, empty⟩
      | pending | finished | waits => exact hstill (talked.closed.symm.trans hclosed)
  | drained ready waiting talked relief => exact hstill (talked.closed.symm.trans hclosed)

/-- A closed writer passes no byte to the stream. -/
theorem closed_step (h : s.Sound) (hclosed : s.inner.closed = true) (into : IoError → E)
    (a : WriterAction E) : (step into s a).inner.closed = true ∧ (step into s a).wire = s.wire := by
  have hfuture := (h.closed hclosed).1
  have hsteps := step_spec into s a
  generalize step into s a = u at hsteps
  cases hsteps with
  | encode bytes error => cases error <;> exact ⟨hclosed, rfl⟩
  | write | close | setBufferCapacity | idle | waiting => exact ⟨hclosed, rfl⟩
  | polled live => exact absurd live (Bool.eq_false_iff.mp hfuture)
  | drained ready waiting => exact absurd (h.draining waiting) (Bool.eq_false_iff.mp hfuture)

theorem closing_mem (into : IoError → E) (buffer : List UInt8) (as : List (WriterAction E))
    (h : (run (step into) (fromBuffer buffer) as).inner.closing = true) :
    WriterAction.close ∈ as := by
  induction as using List.reverseRecOn with
  | nil => exact absurd h Bool.false_ne_true
  | append_singleton as a ih =>
      rw [run_append, run_cons, run_nil] at h
      have hsteps := step_spec into (run (step into) (fromBuffer buffer) as) a
      generalize step into (run (step into) (fromBuffer buffer) as) a = u at hsteps h
      have hbefore (hyes : (run (step into) (fromBuffer buffer) as).inner.closing = true) :
          WriterAction.close ∈ as ++ [a] := List.mem_append_left _ (ih hyes)
      cases hsteps with
      | close => exact List.mem_append_right _ List.mem_cons_self
      | encode bytes error => cases error <;> exact hbefore h
      | write | setBufferCapacity | idle | waiting => exact hbefore h
      | polled live free talked ends => cases ends <;> exact hbefore (talked.closing.symm.trans h)
      | drained ready waiting talked relief => exact hbefore (talked.closing.symm.trans h)

/-- A closed writer stays closed, and its stream gets nothing more. -/
theorem closed_run (h : s.Sound) (hclosed : s.inner.closed = true) (into : IoError → E)
    (later : List (WriterAction E)) : (run (step into) s later).wire = s.wire := by
  induction later generalizing s with
  | nil => rfl
  | cons a later ih =>
      obtain ⟨hstill, hwire⟩ := closed_step h hclosed into a
      exact (ih (sound_step h into a) hstill).trans hwire

/-- The stream of a closed writer holds exactly what was written up to some moment after a call of
`close`. -/
theorem wire_of_closed (into : IoError → E) (buffer : List UInt8) (as : List (WriterAction E))
    (h : (run (step into) (fromBuffer buffer) as).inner.closed = true) :
    ∃ before after, as = before ++ after ∧ .close ∈ before ∧
      (run (step into) (fromBuffer buffer) as).wire = buffer ++ written before := by
  induction as using List.reverseRecOn with
  | nil => exact absurd h Bool.false_ne_true
  | append_singleton as a ih =>
      have hbytes := bytes_run into buffer (as ++ [a])
      simp only [run_append, run_cons, run_nil] at h hbytes ⊢
      cases hopen : (run (step into) (fromBuffer buffer) as).inner.closed with
      | true =>
          obtain ⟨before, after, rfl, hmem, hwire⟩ := ih hopen
          have hkept := (closed_step (sound_run into buffer _) hopen into a).2
          exact ⟨before, after ++ [a], by simp, hmem, hkept.trans hwire⟩
      | false =>
          obtain ⟨hclosing, hnil⟩ := closing_step hopen h
          refine ⟨as ++ [a], [], (List.append_nil _).symm, ?_, ?_⟩
          · exact List.mem_append_left _ (closing_mem into buffer as hclosing)
          · rwa [hnil, List.append_nil] at hbytes

/-- The stream of a closed writer holds exactly what was written up to some moment after a call of
`close`, and holds it whatever follows. What was written later, before or after the writer was
closed, stays in the buffer. -/
theorem closed_after_last_byte (into : IoError → E) (buffer : List UInt8)
    (as : List (WriterAction E))
    (h : (run (step into) (fromBuffer buffer) as).inner.closed = true) :
    ∃ before after, as = before ++ after ∧ .close ∈ before ∧ ∀ later,
      (run (step into) (fromBuffer buffer) (as ++ later)).wire = buffer ++ written before ∧
      (run (step into) (fromBuffer buffer) (as ++ later)).inner.buffer =
        written after ++ written later := by
  obtain ⟨before, after, hsplit, hmem, hwire⟩ := wire_of_closed into buffer as h
  refine ⟨before, after, hsplit, hmem, fun later => ?_⟩
  have hbytes := bytes_run into buffer (as ++ later)
  have hkept : (run (step into) (fromBuffer buffer) (as ++ later)).wire =
      buffer ++ written before := by
    rw [run_append, closed_run (sound_run into buffer as) h, hwire]
  have hwritten : written (as ++ later) = written before ++ (written after ++ written later) := by
    rw [written_append, hsplit, written_append, List.append_assoc]
  rw [hkept, hwritten, ← List.append_assoc] at hbytes
  exact ⟨hkept, List.append_cancel_left hbytes⟩

/-- The last bytes are written after the writer was closed, and it is polled again. -/
def lateWrite : List (WriterAction IoError) :=
  [.write [1, 2], .close, .poll (fun _ _ => .stop) [.wrote 2] .flushed, .write [3]]

theorem closed_after_last_byte_lateWrite :
    let later : List (WriterAction IoError) := [.poll (fun _ _ => .stop) [.wrote 1] .flushed]
    ∃ before after, lateWrite = before ++ after ∧ .close ∈ before ∧
      (run (step id) (fromBuffer []) (lateWrite ++ later)).wire = [] ++ written before ∧
      (run (step id) (fromBuffer []) (lateWrite ++ later)).inner.buffer =
        written after ++ written later := by
  intro later
  obtain ⟨before, after, hsplit, hmem, hlater⟩ :=
    closed_after_last_byte id [] lateWrite (by decide)
  exact ⟨before, after, hsplit, hmem, hlater later⟩

/-- No failing encoder finds an error that the actor was not yet told. -/
def KeepsErrors (s : Writer E) : WriterAction E → Prop
  | .encode _ (some _) => s.inner.error = none
  | _ => True

/-- Every error raised was told to the actor or is kept for it. -/
def AllTold (into : IoError → E) (s : Writer E) : Prop :=
  s.told ++ s.inner.error.toList = s.raised into

theorem allTold_talked {t : Writer E} (htalked : Talked into s t) :
    t.AllTold into ↔ s.AllTold into := by
  obtain ⟨new, hraised, htold⟩ := htalked.errors
  rw [AllTold, AllTold, hraised, htold, List.append_cancel_right_eq]

theorem keepsErrors_iff (h : s.AllTold into) :
    KeepsErrors s a ↔ (step into s a).AllTold into := by
  have hsteps := step_spec into s a
  generalize step into s a = u at hsteps
  have htrivial {P : Prop} (hP : P) : True ↔ P := ⟨fun _ => hP, fun _ => trivial⟩
  cases hsteps with
  | write | close | setBufferCapacity | idle | waiting => exact htrivial h
  | polled live free talked ends =>
      refine htrivial ?_
      rw [AllTold, (ends.errors into).1, (ends.errors into).2]
      exact (allTold_talked talked).mpr h
  | drained ready waiting talked relief => exact htrivial ((allTold_talked talked).mpr h)
  | encode bytes error =>
      cases error with
      | none =>
          refine htrivial ?_
          have hraised : (s.encode bytes none).raised into = s.raised into :=
            (raised_hear into s (.encoded none)).trans (List.append_nil _)
          rw [AllTold, hraised]
          exact h
      | some e =>
          have hraised : (s.encode bytes (some e)).raised into = s.raised into ++ [e] :=
            raised_hear into s (.encoded (some e))
          have htold : (s.encode bytes (some e)).told ++
              (s.encode bytes (some e)).inner.error.toList = s.told ++ [e] := rfl
          rw [AllTold, hraised, htold, List.append_cancel_right_eq]
          constructor
          · intro hnone
            have hnone' : s.inner.error = none := hnone
            rwa [AllTold, hnone', Option.toList_none, List.append_nil] at h
          · intro hsame
            rw [AllTold, ← hsame] at h
            simpa [KeepsErrors] using h

/-- In every run the errors told to the actor, and the one kept for it, are all that were raised,
exactly when no encoder fails while an error is kept: that error would be lost. -/
theorem errors_told_iff (into : IoError → E) (buffer : List UInt8) (as : List (WriterAction E)) :
    Admissible (step into) KeepsErrors (fromBuffer buffer) as ↔
      ∀ before after, as = before ++ after →
        (run (step into) (fromBuffer buffer) before).AllTold into :=
  admissible_iff_forall_run (I := AllTold into) (fun _ _ => keepsErrors_iff) rfl

/-- A stream that takes the whole buffer, in as many pieces as it likes, gets it in one poll. -/
theorem pollWrite_takes (into : IoError → E) (act : List E → E → Running) (ns : List ℕ)
    (hpos : ∀ n ∈ ns, 0 < n) (hsum : ns.sum = s.inner.buffer.length) :
    ∃ t, pollWrite into act (ns.map .wrote) s = some (t, .drained) ∧ Talked into s t ∧
      t.inner.buffer = [] := by
  induction ns generalizing s with
  | nil =>
      have hnil : s.inner.buffer = [] := List.eq_nil_of_length_eq_zero hsum.symm
      exact ⟨s, pollWrite_nil into act _ hnil, .refl s, hnil⟩
  | cons n ns ih =>
      have hn := hpos n List.mem_cons_self
      have hlength : n + ns.sum = s.inner.buffer.length := by simpa using hsum
      have hsome : s.inner.buffer ≠ [] := by
        intro hnil
        rw [hnil, List.length_nil] at hlength
        omega
      set heard := s.hear (.write (.wrote n))
      have hrest : ns.sum = (heard.took n).inner.buffer.length := by
        change ns.sum = (s.inner.buffer.drop n).length
        rw [List.length_drop]
        omega
      obtain ⟨t, ht, htalked, hnil⟩ :=
        ih (s := heard.took n) (fun m hm => hpos m (List.mem_cons_of_mem _ hm)) hrest
      have hheard : Talked into s heard := talked_hear (.write (.wrote n)) (if_neg hn.ne')
      refine ⟨t, ?_, hheard.trans ((talked_took into heard n).trans htalked), hnil⟩
      have hfits : ¬ heard.inner.buffer.length < n := by
        change ¬ s.inner.buffer.length < n
        omega
      simp only [List.map_cons, pollWrite, if_neg hsome]
      rw [if_neg hfits, if_neg hn.ne']
      exact ht

/-- Whatever was written reaches a stream that takes it, and a closing writer is then closed. -/
theorem poll_delivers (into : IoError → E) (buffer : List UInt8) (as : List (WriterAction E))
    (act : List E → E → Running) (ns : List ℕ) (hpos : ∀ n ∈ ns, 0 < n)
    (hsum : ns.sum = (run (step into) (fromBuffer buffer) as).inner.buffer.length)
    (hlive : (run (step into) (fromBuffer buffer) as).future = true)
    (hfree : (run (step into) (fromBuffer buffer) as).draining = false)
    (herror : (run (step into) (fromBuffer buffer) as).inner.error = none) :
    (run (step into) (fromBuffer buffer) (as ++ [.poll act (ns.map .wrote) .flushed])).wire =
        buffer ++ written as ∧
      (run (step into) (fromBuffer buffer)
          (as ++ [.poll act (ns.map .wrote) .flushed])).inner.closed =
        (run (step into) (fromBuffer buffer) as).inner.closing := by
  have hbytes := bytes_run into buffer as
  have hsound := sound_run into buffer as
  rw [run_append, run_cons, run_nil]
  generalize run (step into) (fromBuffer buffer) as = s at *
  obtain ⟨t, ht, htalked, hnil⟩ := pollWrite_takes into act ns hpos (s := s.keepTask false) hsum
  set u := t.hear (.flush .flushed)
  have hsu : Talked into s u :=
    (talked_keepTask into s false).trans (htalked.trans (talked_hear (.flush .flushed) rfl))
  have hempty : u.inner.buffer = [] := hnil
  have hstep : step into s (.poll act (ns.map .wrote) .flushed) = u.settle := by
    simp [step, hlive, hfree, poll, herror, pollIo, ht, pollFlush, u]
  have hwire : u.wire = buffer ++ written as := by
    rw [← hbytes, ← hsu.bytes, hempty, List.append_nil]
  rw [hstep, settle, hsu.closing]
  cases hclosing : s.inner.closing with
  | true => exact ⟨hwire, rfl⟩
  | false =>
      refine ⟨hwire, ?_⟩
      cases hclosed : s.inner.closed with
      | true => exact absurd (hclosing.symm.trans (hsound.closed hclosed).2) Bool.false_ne_true
      | false => exact hsu.closed.trans hclosed

def closingWrite : List (WriterAction IoError) := [.write [8], .close]

theorem poll_delivers_bytewise :
    (run (step id) (fromBuffer [7])
        (closingWrite ++ [.poll (fun _ _ => .stop) ([1, 1].map .wrote) .flushed])).wire =
        [7] ++ written closingWrite ∧
      (run (step id) (fromBuffer [7])
          (closingWrite ++ [.poll (fun _ _ => .stop) ([1, 1].map .wrote) .flushed])).inner.closed =
        (run (step id) (fromBuffer [7]) closingWrite).inner.closing :=
  poll_delivers id [7] closingWrite (fun _ _ => .stop) [1, 1] (by decide) (by decide) (by decide)
    (by decide) (by decide)

end Runs

end Writer

end ActixPura
