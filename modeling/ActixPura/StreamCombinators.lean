import ActixPura.Polling

/-!
# Combinators of actor streams

`Then`, `TakeWhile` and `SkipWhile` of `fut/stream`. Each passes the items of a stream to a closure,
polls the future that the closure returns, and keeps it from poll to poll while it is pending.

A stream is given by its answers, and after them it has ended. A future is pending some number of
times before its output. `M` is what the closure and the actor remember: a call may change it.
-/

namespace ActixPura

open Polling

inductive StreamAnswer (α : Type*)
  | pending
  | item (a : α)
  deriving DecidableEq

structure Fut (β : Type*) where
  waits : ℕ
  output : β
  deriving DecidableEq

namespace ActorStream

section Specification

variable {M α β : Type*}

/-- The items that a stream has still to give. -/
def items (stream : List (StreamAnswer α)) : List α :=
  stream.filterMap fun
    | .pending => none
    | .item a => some a

@[simp] theorem items_nil : items ([] : List (StreamAnswer α)) = [] := rfl

@[simp] theorem items_pending (stream : List (StreamAnswer α)) :
    items (.pending :: stream) = items stream := rfl

@[simp] theorem items_item (a : α) (stream : List (StreamAnswer α)) :
    items (.item a :: stream) = a :: items stream := rfl

/-- The outputs of the calls on a list of items, one after the other. -/
def thenItems (f : M → α → M × Fut β) : M → List α → List β
  | _, [] => []
  | mem, a :: as => (f mem a).2.output :: thenItems f (f mem a).1 as

def takeItems (f : M → α → M × Fut Bool) : M → List α → List α
  | _, [] => []
  | mem, a :: as => if (f mem a).2.output then a :: takeItems f (f mem a).1 as else []

def skipItems (f : M → α → M × Fut Bool) : M → List α → List α
  | _, [] => []
  | mem, a :: as => if (f mem a).2.output then skipItems f (f mem a).1 as else a :: as

/-- The polls that a stream and the futures of its items take. -/
def cost (f : M → α → M × Fut β) : M → List (StreamAnswer α) → ℕ
  | _, [] => 0
  | mem, .pending :: stream => cost f mem stream + 1
  | mem, .item a :: stream => cost f (f mem a).1 stream + (f mem a).2.waits + 1

theorem length_le_cost (f : M → α → M × Fut β) (mem : M) (stream : List (StreamAnswer α)) :
    stream.length ≤ cost f mem stream := by
  induction stream generalizing mem with
  | nil => exact Nat.zero_le _
  | cons answer stream ih =>
      cases answer with
      | pending => exact Nat.succ_le_succ (ih mem)
      | item a =>
          have hrest := ih (f mem a).1
          rw [cost, List.length_cons]
          omega

end Specification

section ThenStream

variable (M α β : Type*)

structure Then where
  stream : List (StreamAnswer α)
  mem : M
  future : Option (Fut β)

variable {M α β} (f : M → α → M × Fut β)

namespace Then

def new (stream : List (StreamAnswer α)) (mem : M) : Then M α β := ⟨stream, mem, none⟩

def pollFuture (s : Then M α β) (future : Fut β) : Then M α β × Poll (Option β) :=
  match future with
  | ⟨0, output⟩ => ({ s with future := none }, .ready (some output))
  | ⟨waits + 1, output⟩ => ({ s with future := some ⟨waits, output⟩ }, .pending)

/-- The loop polls the stream only without a future, and then at once the future of its item. -/
def pollNext (s : Then M α β) : Then M α β × Poll (Option β) :=
  match s.future with
  | some future => s.pollFuture future
  | none =>
    match s.stream with
    | [] => (s, .ready none)
    | .pending :: stream => ({ s with stream := stream }, .pending)
    | .item a :: stream =>
      let called := f s.mem a
      pollFuture { s with stream := stream, mem := called.1 } called.2

def rest (s : Then M α β) : List β :=
  (s.future.map Fut.output).toList ++ thenItems f s.mem (items s.stream)

def costOf (s : Then M α β) : ℕ :=
  (s.future.elim 0 fun future => future.waits + 1) + cost f s.mem s.stream

theorem pollFuture_spec (s : Then M α β) (future : Fut β) :
    ((s.pollFuture future).2 = .pending ∧
      (s.pollFuture future).1.rest f = future.output :: thenItems f s.mem (items s.stream) ∧
      (s.pollFuture future).1.costOf f = future.waits + cost f s.mem s.stream) ∨
    ((s.pollFuture future).2 = .ready (some future.output) ∧
      (s.pollFuture future).1.rest f = thenItems f s.mem (items s.stream) ∧
      (s.pollFuture future).1.costOf f = cost f s.mem s.stream) := by
  obtain ⟨waits, output⟩ := future
  cases waits with
  | zero => exact Or.inr ⟨rfl, rfl, Nat.zero_add _⟩
  | succ waits => exact Or.inl ⟨rfl, rfl, rfl⟩

/-- A poll of a future that the view and the measure count in full. -/
theorem yields_pollFuture {s t : Then M α β} {future : Fut β}
    (hrest : s.rest f = future.output :: thenItems f t.mem (items t.stream))
    (hcost : s.costOf f = future.waits + 1 + cost f t.mem t.stream) :
    ((t.pollFuture future).2 = .pending →
      (t.pollFuture future).1.rest f = s.rest f ∧
        (t.pollFuture future).1.costOf f < s.costOf f) ∧
    (∀ b, (t.pollFuture future).2 = .ready (some b) →
      s.rest f = b :: (t.pollFuture future).1.rest f ∧
        (t.pollFuture future).1.costOf f < s.costOf f) ∧
    (t.pollFuture future).2 ≠ .ready none := by
  obtain ⟨hanswer, hrest', hcost'⟩ | ⟨hanswer, hrest', hcost'⟩ := pollFuture_spec f t future
  · refine ⟨fun _ => ⟨hrest'.trans hrest.symm, by omega⟩, fun b hb => ?_, by simp [hanswer]⟩
    rw [hanswer] at hb
    cases hb
  · refine ⟨fun hp => ?_, fun b hb => ?_, by simp [hanswer]⟩
    · rw [hanswer] at hp
      cases hp
    · rw [hanswer] at hb
      cases hb
      exact ⟨hrest.trans (congrArg _ hrest'.symm), by omega⟩

theorem pollNext_spec (s : Then M α β) :
    ((s.pollNext f).2 = .pending →
      (s.pollNext f).1.rest f = s.rest f ∧ (s.pollNext f).1.costOf f < s.costOf f) ∧
    (∀ b, (s.pollNext f).2 = .ready (some b) →
      s.rest f = b :: (s.pollNext f).1.rest f ∧ (s.pollNext f).1.costOf f < s.costOf f) ∧
    ((s.pollNext f).2 = .ready none → s.rest f = []) := by
  obtain ⟨stream, mem, future⟩ := s
  cases future with
  | some future =>
      obtain ⟨hpending, hitem, hended⟩ := yields_pollFuture f
        (s := ⟨stream, mem, some future⟩) (t := ⟨stream, mem, some future⟩) rfl rfl
      exact ⟨hpending, hitem, fun hnone => absurd hnone hended⟩
  | none =>
      cases stream with
      | nil => exact ⟨fun h => (by cases h), fun b h => (by cases h), fun _ => rfl⟩
      | cons answer stream =>
          cases answer with
          | pending =>
              refine ⟨fun _ => ⟨rfl, ?_⟩, fun b h => (by cases h), fun h => (by cases h)⟩
              simp [pollNext, costOf, cost]
          | item a =>
              have hcost : costOf f ⟨.item a :: stream, mem, none⟩ =
                  (f mem a).2.waits + 1 + cost f (f mem a).1 stream := by
                simp only [costOf, Option.elim_none, cost]
                omega
              obtain ⟨hpending, hitem, hended⟩ := yields_pollFuture f
                (s := ⟨.item a :: stream, mem, none⟩) (t := ⟨stream, (f mem a).1, none⟩) rfl hcost
              exact ⟨hpending, hitem, fun hnone => absurd hnone hended⟩

theorem yields : Yields (pollNext f) (rest f) (costOf f) where
  pending s := (pollNext_spec f s).1
  item s := (pollNext_spec f s).2.1
  ended s := (pollNext_spec f s).2.2

end Then

end ThenStream

section WhileStreams

variable (M α : Type*)

/-- The state that `TakeWhile` and `SkipWhile` have in common: `done` is `done_taking` or
`done_skipping`, and the pending future stands with its item. -/
structure While where
  stream : List (StreamAnswer α)
  mem : M
  pending : Option (Fut Bool × α)
  done : Bool

variable {M α} (f : M → α → M × Fut Bool)

namespace While

def new (stream : List (StreamAnswer α)) (mem : M) : While M α := ⟨stream, mem, none, false⟩

def costOf (s : While M α) : ℕ :=
  (s.pending.elim 0 fun pending => pending.1.waits + 1) + cost f s.mem s.stream

end While

namespace TakeWhile

open While

def pollFuture (s : While M α) (future : Fut Bool) (a : α) : While M α × Poll (Option α) :=
  match future with
  | ⟨0, true⟩ => ({ s with pending := none }, .ready (some a))
  | ⟨0, false⟩ => ({ s with pending := none, done := true }, .ready none)
  | ⟨waits + 1, output⟩ => ({ s with pending := some (⟨waits, output⟩, a) }, .pending)

def pollNext (s : While M α) : While M α × Poll (Option α) :=
  if s.done then (s, .ready none) else
  match s.pending with
  | some (future, a) => pollFuture s future a
  | none =>
    match s.stream with
    | [] => (s, .ready none)
    | .pending :: stream => ({ s with stream := stream }, .pending)
    | .item a :: stream =>
      let called := f s.mem a
      pollFuture { s with stream := stream, mem := called.1 } called.2 a

def rest (s : While M α) : List α :=
  if s.done then [] else
  match s.pending with
  | none => takeItems f s.mem (items s.stream)
  | some (future, a) =>
    if future.output then a :: takeItems f s.mem (items s.stream) else []

theorem yields_pollFuture {s t : While M α} {future : Fut Bool} {a : α} (hopen : t.done = false)
    (hrest : rest f s = if future.output then a :: takeItems f t.mem (items t.stream) else [])
    (hcost : s.costOf f = future.waits + 1 + cost f t.mem t.stream) :
    ((pollFuture t future a).2 = .pending →
      rest f (pollFuture t future a).1 = rest f s ∧
        (pollFuture t future a).1.costOf f < s.costOf f) ∧
    (∀ b, (pollFuture t future a).2 = .ready (some b) →
      rest f s = b :: rest f (pollFuture t future a).1 ∧
        (pollFuture t future a).1.costOf f < s.costOf f) ∧
    ((pollFuture t future a).2 = .ready none → rest f s = []) := by
  obtain ⟨waits, output⟩ := future
  cases waits with
  | zero =>
      cases output with
      | false => exact ⟨fun h => (by cases h), fun b h => (by cases h), fun _ => hrest⟩
      | true =>
          refine ⟨fun h => (by cases h), fun b h => ?_, fun h => (by cases h)⟩
          cases h
          refine ⟨?_, ?_⟩
          · simpa [pollFuture, rest, hopen] using hrest
          · simp only [pollFuture, costOf, Option.elim_none]
            simp only [costOf] at hcost
            omega
  | succ waits =>
      refine ⟨fun _ => ⟨?_, ?_⟩, fun b h => (by cases h), fun h => (by cases h)⟩
      · rw [hrest]
        simp [pollFuture, rest, hopen]
      · simp only [pollFuture, costOf, Option.elim_some]
        simp only [costOf] at hcost
        omega

theorem pollNext_spec (s : While M α) :
    ((pollNext f s).2 = .pending →
      rest f (pollNext f s).1 = rest f s ∧ (pollNext f s).1.costOf f < s.costOf f) ∧
    (∀ b, (pollNext f s).2 = .ready (some b) →
      rest f s = b :: rest f (pollNext f s).1 ∧ (pollNext f s).1.costOf f < s.costOf f) ∧
    ((pollNext f s).2 = .ready none → rest f s = []) := by
  obtain ⟨stream, mem, pending, done⟩ := s
  cases done with
  | true => exact ⟨fun h => (by cases h), fun b h => (by cases h), fun _ => rfl⟩
  | false =>
      cases pending with
      | some pending =>
          obtain ⟨future, a⟩ := pending
          exact yields_pollFuture f (s := ⟨stream, mem, some (future, a), false⟩)
            (t := ⟨stream, mem, some (future, a), false⟩) rfl rfl rfl
      | none =>
          cases stream with
          | nil => exact ⟨fun h => (by cases h), fun b h => (by cases h), fun _ => rfl⟩
          | cons answer stream =>
              cases answer with
              | pending =>
                  refine ⟨fun _ => ⟨rfl, ?_⟩, fun b h => (by cases h), fun h => (by cases h)⟩
                  simp [pollNext, costOf, cost]
              | item a =>
                  have hcost : costOf f ⟨.item a :: stream, mem, none, false⟩ =
                      (f mem a).2.waits + 1 + cost f (f mem a).1 stream := by
                    simp only [costOf, Option.elim_none, cost]
                    omega
                  exact yields_pollFuture f (s := ⟨.item a :: stream, mem, none, false⟩)
                    (t := ⟨stream, (f mem a).1, none, false⟩) rfl rfl hcost

theorem yields : Yields (pollNext f) (rest f) (costOf f) where
  pending s := (pollNext_spec f s).1
  item s := (pollNext_spec f s).2.1
  ended s := (pollNext_spec f s).2.2

end TakeWhile

namespace SkipWhile

open While

/-- The loop on a stream whose pending future was consumed. It is left with an item, at the end of
the stream, or where the stream or a future is pending. -/
def skip (f : M → α → M × Fut Bool) (mem : M) :
    List (StreamAnswer α) → While M α × Poll (Option α)
  | [] => (⟨[], mem, none, false⟩, .ready none)
  | .pending :: stream => (⟨stream, mem, none, false⟩, .pending)
  | .item a :: stream =>
    match f mem a with
    | (mem, ⟨waits + 1, output⟩) => (⟨stream, mem, some (⟨waits, output⟩, a), false⟩, .pending)
    | (mem, ⟨0, false⟩) => (⟨stream, mem, none, true⟩, .ready (some a))
    | (mem, ⟨0, true⟩) => skip f mem stream

/-- The stream itself, once the skipping is done. -/
def pollStream (s : While M α) : While M α × Poll (Option α) :=
  match s.stream with
  | [] => (s, .ready none)
  | .pending :: stream => ({ s with stream := stream }, .pending)
  | .item a :: stream => ({ s with stream := stream }, .ready (some a))

def pollNext (s : While M α) : While M α × Poll (Option α) :=
  if s.done then pollStream s else
  match s.pending with
  | none => skip f s.mem s.stream
  | some (⟨waits + 1, output⟩, a) => ({ s with pending := some (⟨waits, output⟩, a) }, .pending)
  | some (⟨0, false⟩, a) => ({ s with pending := none, done := true }, .ready (some a))
  | some (⟨0, true⟩, _) => skip f s.mem s.stream

def rest (s : While M α) : List α :=
  if s.done then items s.stream else
  match s.pending with
  | none => skipItems f s.mem (items s.stream)
  | some (future, a) =>
    if future.output then skipItems f s.mem (items s.stream) else a :: items s.stream

/-- Once the skipping is done no call is counted. -/
def costOf (s : While M α) : ℕ :=
  if s.done then s.stream.length else s.costOf f

theorem skip_spec (mem : M) (stream : List (StreamAnswer α)) {n : ℕ}
    (hn : cost f mem stream ≤ n) :
    ((skip f mem stream).2 = .pending →
      rest f (skip f mem stream).1 = skipItems f mem (items stream) ∧
        costOf f (skip f mem stream).1 < n) ∧
    (∀ b, (skip f mem stream).2 = .ready (some b) →
      skipItems f mem (items stream) = b :: rest f (skip f mem stream).1 ∧
        costOf f (skip f mem stream).1 < n) ∧
    ((skip f mem stream).2 = .ready none → skipItems f mem (items stream) = []) := by
  induction stream generalizing mem with
  | nil => exact ⟨fun h => (by cases h), fun b h => (by cases h), fun _ => rfl⟩
  | cons answer stream ih =>
      cases answer with
      | pending =>
          refine ⟨fun _ => ⟨rfl, ?_⟩, fun b h => (by cases h), fun h => (by cases h)⟩
          simp only [cost] at hn
          simp only [skip, costOf, While.costOf, Option.elim_none, Bool.false_eq_true, if_false]
          omega
      | item a =>
          rw [cost] at hn
          rw [skip, items_item, skipItems]
          rcases hcall : f mem a with ⟨mem', ⟨_ | waits, output⟩⟩
          · rw [hcall] at hn
            dsimp only at hn
            cases output with
            | true => exact ih mem' (by omega)
            | false =>
                refine ⟨fun h => (by cases h), fun b h => ?_, fun h => (by cases h)⟩
                cases h
                refine ⟨rfl, ?_⟩
                have hlength := length_le_cost f mem' stream
                simp only [costOf, if_true]
                omega
          · rw [hcall] at hn
            refine ⟨fun _ => ⟨rfl, ?_⟩, fun b h => (by cases h), fun h => (by cases h)⟩
            simp only [costOf, While.costOf, Option.elim_some, Bool.false_eq_true, if_false]
            dsimp only at hn
            omega

theorem pollNext_spec (s : While M α) :
    ((pollNext f s).2 = .pending →
      rest f (pollNext f s).1 = rest f s ∧ costOf f (pollNext f s).1 < costOf f s) ∧
    (∀ b, (pollNext f s).2 = .ready (some b) →
      rest f s = b :: rest f (pollNext f s).1 ∧ costOf f (pollNext f s).1 < costOf f s) ∧
    ((pollNext f s).2 = .ready none → rest f s = []) := by
  obtain ⟨stream, mem, pending, done⟩ := s
  cases done with
  | true =>
      cases stream with
      | nil => exact ⟨fun h => (by cases h), fun b h => (by cases h), fun _ => rfl⟩
      | cons answer stream =>
          cases answer with
          | pending =>
              exact ⟨fun _ => ⟨rfl, Nat.lt_succ_self _⟩, fun b h => (by cases h),
                fun h => (by cases h)⟩
          | item a =>
              refine ⟨fun h => (by cases h), fun b h => ?_, fun h => (by cases h)⟩
              cases h
              exact ⟨rfl, Nat.lt_succ_self _⟩
  | false =>
      rcases pending with _ | ⟨⟨_ | waits, output⟩, a⟩
      · have hspec := skip_spec f mem stream (le_refl _)
        have hcost : costOf f ⟨stream, mem, none, false⟩ = cost f mem stream := by
          simp [costOf, While.costOf]
        rw [hcost]
        exact hspec
      · have hcost : costOf f ⟨stream, mem, some (⟨0, output⟩, a), false⟩ =
            cost f mem stream + 1 := by
          simp only [costOf, While.costOf, Option.elim_some, Bool.false_eq_true, if_false]
          omega
        rw [hcost]
        cases output with
        | true => exact skip_spec f mem stream (Nat.le_succ _)
        | false =>
            refine ⟨fun h => (by cases h), fun b h => ?_, fun h => (by cases h)⟩
            cases h
            exact ⟨rfl, Nat.lt_succ_of_le (length_le_cost f mem stream)⟩
      · refine ⟨fun _ => ⟨rfl, ?_⟩, fun b h => (by cases h), fun h => (by cases h)⟩
        simp only [pollNext, costOf, While.costOf, Option.elim_some, Bool.false_eq_true, if_false]
        omega

theorem yields : Yields (pollNext f) (rest f) (costOf f) where
  pending s := (pollNext_spec f s).1
  item s := (pollNext_spec f s).2.1
  ended s := (pollNext_spec f s).2.2

end SkipWhile

end WhileStreams

section Results

variable {M α β : Type*}

/-- Whatever the delays of the stream and the futures, the items that the combinators give in any
number of polls begin those of the list functions, and enough polls give all of them and the end. -/
theorem combinators_give (f : M → α → M × Fut β) (p : M → α → M × Fut Bool) (mem : M)
    (stream : List (StreamAnswer α)) (n : ℕ) :
    ((outputs (Then.pollNext f) n (.new stream mem)).1 <+: thenItems f mem (items stream) ∧
      (outputs (TakeWhile.pollNext p) n (.new stream mem)).1 <+: takeItems p mem (items stream) ∧
      (outputs (SkipWhile.pollNext p) n (.new stream mem)).1 <+: skipItems p mem (items stream)) ∧
    (cost f mem stream < n →
      outputs (Then.pollNext f) n (.new stream mem) = (thenItems f mem (items stream), true)) ∧
    (cost p mem stream < n →
      outputs (TakeWhile.pollNext p) n (.new stream mem) =
          (takeItems p mem (items stream), true) ∧
        outputs (SkipWhile.pollNext p) n (.new stream mem) =
          (skipItems p mem (items stream), true)) := by
  have hcost : Then.costOf f (.new stream mem) = cost f mem stream := Nat.zero_add _
  have htake : While.costOf p (.new stream mem) = cost p mem stream := Nat.zero_add _
  have hskip : SkipWhile.costOf p (.new stream mem) = cost p mem stream := Nat.zero_add _
  refine ⟨⟨(Then.yields f).outputs_begin n _, (TakeWhile.yields p).outputs_begin n _,
    (SkipWhile.yields p).outputs_begin n _⟩, fun hn => ?_, fun hn => ⟨?_, ?_⟩⟩
  · exact (Then.yields f).outputs_eq (hcost.trans_lt hn)
  · exact (TakeWhile.yields p).outputs_eq (htake.trans_lt hn)
  · exact (SkipWhile.yields p).outputs_eq (hskip.trans_lt hn)

end Results

end ActorStream

end ActixPura
