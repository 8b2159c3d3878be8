import ActixPura.BrokerCopies

/-!
# Sequence numbers of publications

A call of `publish` takes a number from the counter of its topic, and the copy for the local
subscribers carries it. The copy for other nodes is made later, and its number is read from the
counter a second time, under another acquisition of the lock. When another call has taken a number
on the topic in between, the two copies of the message carry different numbers, and the copy for
other nodes carries the number of another message.

The numbers that calls take are increasing, whatever the order of the critical sections. So the
numbers identify the messages in a run exactly when no call reads the counter after another one has
taken a number.
-/

namespace ActixPura

open Runs

namespace BrokerEvent

def starts (id : Uuid) : BrokerEvent → Bool
  | .started call => call.id = id
  | _ => false

def numbers (id : Uuid) : BrokerEvent → Bool
  | .numbered call _ => call.id = id
  | _ => false

end BrokerEvent

/-- The numbers that calls with the identifier have taken. -/
def numbersTaken (id : Uuid) (log : List BrokerEvent) : List UInt64 :=
  log.filterMap fun
    | .numbered call sequence => if call.id = id then some sequence else none
    | _ => none

theorem mem_numbersTaken {id : Uuid} {log : List BrokerEvent} {sequence : UInt64} :
    sequence ∈ numbersTaken id log ↔ ∃ call, call.id = id ∧ .numbered call sequence ∈ log := by
  simp only [numbersTaken, List.mem_filterMap]
  constructor
  · rintro ⟨e, he, hsome⟩
    cases e with
    | numbered call sequence' =>
        simp only [Option.ite_none_right_eq_some, Option.some.injEq] at hsome
        exact ⟨call, hsome.1, hsome.2 ▸ he⟩
    | _ => simp at hsome
  · rintro ⟨call, rfl, he⟩
    exact ⟨_, he, by simp⟩

def Task.receives : Task → Bool
  | .handleBrokerMessage _ => true
  | _ => false

/-- A call is under way with the number that it has taken. -/
def Task.HasNumber (log : List BrokerEvent) : Task → Prop
  | .publish call => .started call ∈ log
  | .publishLocally call _ => call.payload ≠ none ∧ ∃ s, .numbered call s ∈ log
  | .handLocally call _ _ => call.payload ≠ none ∧ ∃ s, .numbered call s ∈ log
  | .findTargets call => call.payload ≠ none ∧ ∃ s, .numbered call s ∈ log
  | .resequence call _ => call.payload ≠ none ∧ ∃ s, .numbered call s ∈ log
  | .track message _ => ∃ call s, call.id = message.id ∧ .numbered call s ∈ log
  | .distribute message _ => ∃ call s, call.id = message.id ∧ .numbered call s ∈ log
  | _ => True

theorem Task.HasNumber.append {log : List BrokerEvent} {task : Task} (h : task.HasNumber log)
    (events : List BrokerEvent) : task.HasNumber (log ++ events) := by
  have htaken {call : PublishCall} (h : ∃ s, .numbered call s ∈ log) :
      ∃ s, .numbered call s ∈ log ++ events := by
    obtain ⟨s, hs⟩ := h
    exact ⟨s, List.mem_append_left _ hs⟩
  cases task with
  | publish call => exact List.mem_append_left _ h
  | publishLocally call message => exact ⟨h.1, htaken h.2⟩
  | handLocally call message remaining => exact ⟨h.1, htaken h.2⟩
  | findTargets call => exact ⟨h.1, htaken h.2⟩
  | resequence call targets => exact ⟨h.1, htaken h.2⟩
  | track message targets =>
      obtain ⟨call, s, hid, hs⟩ := h
      exact ⟨call, s, hid, List.mem_append_left _ hs⟩
  | distribute message targets =>
      obtain ⟨call, s, hid, hs⟩ := h
      exact ⟨call, s, hid, List.mem_append_left _ hs⟩
  | _ => trivial

theorem hasNumber_next {b : NetworkBroker} {clock : ClockReading} {task task' : Task}
    {events log : List BrokerEvent} (hnext : b.Next clock task task' events)
    (h : task.HasNumber log) : task'.HasNumber (log ++ events) := by
  cases hnext with
  | publish hp =>
      refine ⟨fun hnone => ?_, _, List.mem_append_right _ List.mem_cons_self⟩
      simp [hp] at hnone
  | resequence hp =>
      obtain ⟨-, s, hs⟩ := h
      exact ⟨_, s, rfl, List.mem_append_left _ hs⟩
  | publishLocally => exact Task.HasNumber.append h _
  | handedLocally => exact Task.HasNumber.append h _
  | handLocally => exact Task.HasNumber.append h _
  | findTargets _ => exact Task.HasNumber.append h _
  | track => exact Task.HasNumber.append h _
  | _ => trivial

namespace BrokerNode

variable {n : BrokerNode}

/-- The number of the last message of a topic. -/
def counter (n : BrokerNode) (topic : String) : UInt64 :=
  n.network.broker.sequenceCounters.getD topic 0

/-- Every call of `publish` draws a new identifier, and no message comes from elsewhere. -/
def Fresh (n : BrokerNode) : BrokerAction → Prop
  | .call task => task.receives = false ∧
      ∀ call ∈ task.publication, ∀ e ∈ n.log, e.starts call.id = false
  | _ => True

def Publishing (n : BrokerNode) (a : BrokerAction) : Prop := n.Enabled a ∧ n.Fresh a

/-- The call that is about to read the counter again. -/
def rereading (n : BrokerNode) (k : ℕ) : Option PublishCall :=
  match n.tasks[k]? with
  | some (.resequence call _) => some call
  | _ => none

/-- A call that reads the counter again finds the number that it has taken. -/
def OwnNumber (n : BrokerNode) : BrokerAction → Prop
  | .advance k _ _ => ∀ call ∈ n.rereading k, ∀ s ∈ numbersTaken call.id n.log,
      n.counter call.topic = s
  | _ => True

/-- The call that is about to take its number. -/
def taking (n : BrokerNode) (k : ℕ) : Option PublishCall :=
  match n.tasks[k]? with
  | some (.publish call) => some call
  | _ => none

/-- The counter does not overflow when a call takes its number. -/
def NoOverflow (n : BrokerNode) : BrokerAction → Prop
  | .advance k _ _ => ∀ call ∈ n.taking k, n.counter call.topic + 1 ≠ 0
  | _ => True

/-- The number is the one that the call has taken, or one that a copy of its message carries. -/
def Carries (n : BrokerNode) (call : PublishCall) (sequence : UInt64) : Prop :=
  .started call ∈ n.log ∧ (.numbered call sequence ∈ n.log ∨
    ∃ message, n.Holds message ∧ message.id = call.id ∧ message.sequence = sequence)

/-- Sequence numbers identify messages. -/
structure Identifies (n : BrokerNode) : Prop where
  same : ∀ call s s', n.Carries call s → n.Carries call s' → s = s'
  different : ∀ call call' s s', call.topic = call'.topic → call.id ≠ call'.id →
    n.Carries call s → n.Carries call' s' → s ≠ s'
  ordered : ∀ before call call' after s s', n.log = before ++ .started call' :: after →
    .returned call.id ∈ before → call.topic = call'.topic → n.Carries call s →
    n.Carries call' s' → s < s'

theorem counter_advance {k : ℕ} {task : Task} (htask : n.tasks[k]? = some task)
    (clock : ClockReading) (sendOk : Bool) (topic : String) :
    (n.advance k clock sendOk).counter topic =
      match task with
      | .publish call =>
        if call.topic = topic then n.counter topic + 1 else n.counter topic
      | _ => n.counter topic := by
  rw [advance_eq htask, counter, NetworkBroker.advance_network]
  cases task with
  | publish call =>
      simp only [MessageBroker.takeSequence, Std.ExtTreeMap.getD_insert, Std.compare_eq_iff_eq]
      split_ifs with htopic
      · subst htopic
        rfl
      · rfl
  | handleRemoteMessage message =>
      change ((n.network.broker.deduplicate message clock.instant).getD
        n.network.broker).sequenceCounters.getD topic 0 = _
      unfold MessageBroker.deduplicate
      split_ifs <;> rfl
  | _ => rfl

/-! ## The numbers that calls take -/

/-- A call that has not taken its number. -/
def waiting (id : Uuid) : Task → ℕ
  | .publish call => if call.id = id then 1 else 0
  | _ => 0

theorem waiting_advance (id : Uuid) (b : NetworkBroker) (k : ℕ) (clock : ClockReading)
    (sendOk : Bool) (task : Task) : waiting id (b.advance k clock sendOk task).2.1 = 0 := by
  fun_cases NetworkBroker.advance b k clock sendOk task <;> first | rfl | split_ifs <;> rfl

theorem countP_numbers_advance (id : Uuid) (b : NetworkBroker) (k : ℕ) (clock : ClockReading)
    (sendOk : Bool) (task : Task) :
    (b.advance k clock sendOk task).2.2.countP (BrokerEvent.numbers id) = waiting id task := by
  by_cases hpublish : ∃ call, task = .publish call
  · obtain ⟨call, rfl⟩ := hpublish
    cases hp : call.payload <;>
      simp [NetworkBroker.advance, hp, BrokerEvent.numbers, waiting, List.countP_cons]
  · have hzero : waiting id task = 0 := by
      cases task with
      | publish call => exact absurd ⟨call, rfl⟩ hpublish
      | _ => rfl
    rw [hzero, List.countP_eq_zero]
    intro e he
    have horigin := NetworkBroker.origin_of_mem he
    cases e with
    | numbered call sequence => exact absurd ⟨call, horigin.1⟩ hpublish
    | _ => simp [BrokerEvent.numbers]

theorem countP_starts_advance (id : Uuid) (b : NetworkBroker) (k : ℕ) (clock : ClockReading)
    (sendOk : Bool) (task : Task) :
    (b.advance k clock sendOk task).2.2.countP (BrokerEvent.starts id) = 0 := by
  refine List.countP_eq_zero.mpr fun e he => ?_
  have horigin := NetworkBroker.origin_of_mem he
  cases e with
  | started call => exact horigin.elim
  | _ => simp [BrokerEvent.starts]

/-- A number is taken after the call was started, and a call returns after it has taken one. -/
def TakenBefore (before : List BrokerEvent) : BrokerEvent → Prop
  | .numbered call _ => .started call ∈ before
  | .returned id => ∃ call s, call.id = id ∧ .numbered call s ∈ before
  | _ => True

theorem TakenBefore.append (l l' : List BrokerEvent) (e : BrokerEvent) (h : TakenBefore l e) :
    TakenBefore (l ++ l') e := by
  cases e with
  | numbered call s => exact List.mem_append_left _ h
  | returned id =>
      obtain ⟨call, s, hid, hs⟩ := h
      exact ⟨call, s, hid, List.mem_append_left _ hs⟩
  | _ => trivial

/-- Later numbers of a topic are greater. -/
def Below : BrokerEvent → BrokerEvent → Prop
  | .numbered call s, .numbered call' s' => call.topic = call'.topic → s < s'
  | _, _ => True

/-- The calls of `publish`, their numbers and the counters. -/
structure Numbering (n : BrokerNode) : Prop where
  starts : ∀ id, n.log.countP (BrokerEvent.starts id) ≤ 1
  taken : ∀ id, n.mass (waiting id) + n.log.countP (BrokerEvent.numbers id) ≤
    n.log.countP (BrokerEvent.starts id)
  tasks : ∀ task ∈ n.tasks, task.HasNumber n.log
  before : Preceded TakenBefore n.log

structure Increasing (n : BrokerNode) : Prop where
  bounded : ∀ call s, .numbered call s ∈ n.log → s ≤ n.counter call.topic
  increasing : n.log.Pairwise Below

theorem numbering_publish (h : n.Numbering) {call : PublishCall}
    (hfresh : ∀ e ∈ n.log, e.starts call.id = false) : (n.call (.publish call)).Numbering := by
  have hzero : n.log.countP (BrokerEvent.starts call.id) = 0 :=
    List.countP_eq_zero.mpr fun e he => by simp [hfresh e he]
  have hstarts (id : Uuid) : (n.call (.publish call)).log.countP (BrokerEvent.starts id) =
      n.log.countP (BrokerEvent.starts id) + waiting id (.publish call) := by
    simp [BrokerNode.call, callEvents, List.countP_append, List.countP_cons, BrokerEvent.starts,
      waiting]
  refine ⟨fun id => ?_, fun id => ?_, fun t ht => ?_, ?_⟩
  · have hold := h.starts id
    rw [hstarts, waiting]
    split_ifs with hid
    · subst hid
      omega
    · exact hold
  · have hold := h.taken id
    have hnumbers : (n.call (.publish call)).log.countP (BrokerEvent.numbers id) =
        n.log.countP (BrokerEvent.numbers id) := by
      simp [BrokerNode.call, callEvents, List.countP_append, BrokerEvent.numbers]
    rw [hstarts, hnumbers, mass_call]
    omega
  · rcases List.mem_append.mp ht with hold | hnew
    · exact (h.tasks t hold).append _
    · rw [List.mem_singleton.mp hnew]
      exact List.mem_append_right _ List.mem_cons_self
  · refine h.before.append TakenBefore.append fun e he => ?_
    obtain ⟨call', -, rfl⟩ := mem_callEvents he
    trivial

theorem numbering_call (h : n.Numbering) {task : Task} (hcall : n.Publishing (.call task)) :
    (n.call task).Numbering := by
  have hquiet (hevents : callEvents task = []) (hwaiting : ∀ id, waiting id task = 0)
      (htask : task.HasNumber n.log) : (n.call task).Numbering := by
    have hlog : (n.call task).log = n.log := by simp [BrokerNode.call, hevents]
    refine ⟨fun id => ?_, fun id => ?_, fun t ht => ?_, ?_⟩
    · rw [hlog]
      exact h.starts id
    · rw [hlog, mass_call, hwaiting]
      exact h.taken id
    · rw [hlog]
      rcases List.mem_append.mp ht with hold | hnew
      · exact h.tasks t hold
      · rw [List.mem_singleton.mp hnew]
        exact htask
    · rw [hlog]
      exact h.before
  obtain ⟨hisCall, hfresh⟩ := hcall
  cases task with
  | publish call => exact numbering_publish h (hfresh.2 call rfl)
  | _ => exact hquiet rfl (fun _ => rfl) (by trivial)

/-- What a call does follows on its number. -/
theorem takenBefore_events (h : n.Numbering) {k : ℕ} {task : Task}
    (htask : n.tasks[k]? = some task) (clock : ClockReading) (sendOk : Bool) :
    Preceded (fun before => TakenBefore (n.log ++ before))
      (n.network.advance k clock sendOk task).2.2 := by
  have hnumber := h.tasks task (List.mem_of_getElem? htask)
  intro before e after hevents
  have he : e ∈ (n.network.advance k clock sendOk task).2.2 := by
    rw [hevents]
    exact List.mem_append_right _ List.mem_cons_self
  have horigin := NetworkBroker.origin_of_mem he
  cases e with
  | numbered call s =>
      obtain ⟨rfl, -⟩ := horigin
      exact List.mem_append_left _ hnumber
  | returned id =>
      obtain ⟨call, rfl, hp, rfl⟩ | ⟨call, rfl, -, rfl⟩ | ⟨call, targets, rfl, hp, -⟩ |
        ⟨message, targets, rfl, rfl⟩ := horigin
      · simp only [NetworkBroker.advance, hp] at hevents
        cases before with
        | nil => simp at hevents
        | cons e before =>
            obtain ⟨rfl, -⟩ := List.cons.inj hevents
            exact ⟨call, _, rfl, List.mem_append_right _ List.mem_cons_self⟩
      · obtain ⟨-, s, hs⟩ := hnumber
        exact ⟨call, s, rfl, List.mem_append_left _ hs⟩
      · exact absurd hp hnumber.1
      · obtain ⟨call, s, hid, hs⟩ := hnumber
        exact ⟨call, s, hid, List.mem_append_left _ hs⟩
  | _ => trivial

theorem numbering_advance (h : n.Numbering) {k : ℕ} {task : Task}
    (htask : n.tasks[k]? = some task) (clock : ClockReading) (sendOk : Bool) :
    (n.advance k clock sendOk).Numbering := by
  have hmass (id : Uuid) := mass_advance (waiting id) htask clock sendOk
  simp only [waiting_advance] at hmass
  have hbefore := preceded_append.mpr ⟨h.before, takenBefore_events h htask clock sendOk⟩
  have htasks := forall_tasks_set
    (fun t ht => (h.tasks t ht).append (n.network.advance k clock sendOk task).2.2) k
    (hasNumber_next (n.network.next_advance k clock sendOk task)
      (h.tasks task (List.mem_of_getElem? htask)))
  rw [advance_eq htask] at hmass ⊢
  refine ⟨fun id => ?_, fun id => ?_, htasks, hbefore⟩
  · rw [List.countP_append, countP_starts_advance]
    exact h.starts id
  · rw [List.countP_append, List.countP_append, countP_starts_advance, countP_numbers_advance]
    have htaken := h.taken id
    have hmass := hmass id
    omega

theorem increasing_call (h : n.Increasing) (task : Task) : (n.call task).Increasing := by
  refine ⟨fun call s hs => ?_, List.pairwise_append.mpr ⟨h.increasing, ?_, ?_⟩⟩
  · rcases List.mem_append.mp hs with hold | hnew
    · exact h.bounded call s hold
    · obtain ⟨call', -, heq⟩ := mem_callEvents hnew
      simp at heq
  · cases task with
    | publish call => exact List.pairwise_singleton _ _
    | _ => exact List.Pairwise.nil
  · intro e _ e' he'
    obtain ⟨call', -, rfl⟩ := mem_callEvents he'
    cases e <;> trivial

theorem lt_add_one_of_le {s c : UInt64} (hs : s ≤ c) (hc : c + 1 ≠ 0) : s < c + 1 := by
  rw [UInt64.le_iff_toNat_le] at hs
  rw [UInt64.lt_iff_toNat_lt]
  have hc' : (c + 1).toNat ≠ 0 := fun h => hc (UInt64.toNat_inj.mp h)
  rw [UInt64.toNat_add] at hc' ⊢
  have hlt := c.toNat_lt
  change (c.toNat + 1) % 2 ^ 64 ≠ 0 at hc'
  change s.toNat < (c.toNat + 1) % 2 ^ 64
  omega

/-- A call that takes a number takes the next one of its topic. -/
theorem number_taken {k : ℕ} {task : Task} {clock : ClockReading} {sendOk : Bool}
    {call : PublishCall} {s : UInt64}
    (hnew : .numbered call s ∈ (n.network.advance k clock sendOk task).2.2) :
    task = .publish call ∧ s = n.counter call.topic + 1 :=
  NetworkBroker.origin_of_mem hnew

theorem counter_le_advance {k : ℕ} {task : Task} (htask : n.tasks[k]? = some task)
    (clock : ClockReading) (sendOk : Bool) (hoverflow : n.NoOverflow (.advance k clock sendOk))
    (topic : String) : n.counter topic ≤ (n.advance k clock sendOk).counter topic := by
  rw [counter_advance htask]
  cases task with
  | publish call =>
      simp only
      split_ifs with htopic
      · subst htopic
        exact UInt64.le_of_lt (lt_add_one_of_le (UInt64.le_refl _)
          (hoverflow call (by simp [taking, htask])))
      · exact UInt64.le_refl _
  | _ => exact UInt64.le_refl _

theorem increasing_advance (h : n.Increasing) {k : ℕ} {task : Task}
    (htask : n.tasks[k]? = some task) (clock : ClockReading) (sendOk : Bool)
    (hoverflow : n.NoOverflow (.advance k clock sendOk)) :
    (n.advance k clock sendOk).Increasing := by
  have hle := counter_le_advance htask clock sendOk hoverflow
  have hcounter := counter_advance htask clock sendOk
  have hlog : (n.advance k clock sendOk).log =
    n.log ++ (n.network.advance k clock sendOk task).2.2 := by rw [advance_eq htask]
  refine ⟨fun call s hs => ?_, ?_⟩
  · rw [hlog] at hs
    rcases List.mem_append.mp hs with hold | hnew
    · exact UInt64.le_trans (h.bounded call s hold) (hle call.topic)
    · obtain ⟨rfl, rfl⟩ := number_taken hnew
      rw [hcounter]
      simp
  · rw [hlog]
    refine List.pairwise_append.mpr ⟨h.increasing, ?_, fun e he e' he' => ?_⟩
    · refine List.pairwise_iff_forall_sublist.mpr fun {e e'} hsub => ?_
      cases e with
      | numbered call s =>
          cases e' with
          | numbered call' s' =>
              obtain ⟨rfl, -⟩ := number_taken (hsub.subset List.mem_cons_self)
              have hcount := hsub.countP_le (p := BrokerEvent.numbers call.id)
              have hmem := hsub.subset (List.mem_cons_of_mem _ List.mem_cons_self)
              obtain ⟨hcall, -⟩ := number_taken hmem
              obtain rfl := Task.publish.inj hcall
              rw [countP_numbers_advance] at hcount
              simp [BrokerEvent.numbers, waiting] at hcount
          | _ => trivial
      | _ => trivial
    · cases e with
      | numbered call s =>
          cases e' with
          | numbered call' s' =>
              intro htopic
              obtain ⟨rfl, rfl⟩ := number_taken he'
              rw [← htopic]
              refine lt_add_one_of_le (h.bounded call s he) ?_
              rw [htopic]
              exact hoverflow call' (by simp [taking, htask])
          | _ => trivial
      | _ => trivial

/-! ## The numbers that copies carry -/

/-- Every copy of a message carries the number that its call has taken. -/
def Copied (n : BrokerNode) : Prop :=
  ∀ message, n.Holds message →
    ∃ call, call.id = message.id ∧ .numbered call message.sequence ∈ n.log

theorem copied_call (h : n.Copied) {task : Task} (hcall : n.Publishing (.call task)) :
    (n.call task).Copied := by
  intro message hholds
  rcases holds_call hholds with hold | hnew
  · obtain ⟨call, hid, hs⟩ := h message hold
    exact ⟨call, hid, List.mem_append_left _ hs⟩
  · obtain ⟨hisCall, hfresh⟩ := hcall
    obtain rfl := Task.received_of_isCall hisCall hnew
    exact Bool.noConfusion hfresh.1

theorem copied_advance (h : n.Copied) (hnumbering : n.Numbering) {k : ℕ} {task : Task}
    (htask : n.tasks[k]? = some task) (clock : ClockReading) (sendOk : Bool)
    (hown : n.OwnNumber (.advance k clock sendOk)) : (n.advance k clock sendOk).Copied := by
  have hlog : (n.advance k clock sendOk).log =
    n.log ++ (n.network.advance k clock sendOk task).2.2 := by rw [advance_eq htask]
  intro message hholds
  rw [hlog]
  rcases holds_advance htask hholds with hold | ⟨call, payload, rfl, hp, rfl⟩ |
    ⟨call, targets, payload, rfl, hp, rfl⟩
  · obtain ⟨call, hid, hs⟩ := h message hold
    exact ⟨call, hid, List.mem_append_left _ hs⟩
  · refine ⟨call, rfl, List.mem_append_right _ ?_⟩
    simp only [NetworkBroker.advance, hp]
    exact List.mem_cons_self
  · obtain ⟨-, s, hs⟩ := hnumbering.tasks _ (List.mem_of_getElem? htask)
    have hcounter := hown call (by simp [rereading, htask]) s
      (mem_numbersTaken.mpr ⟨call, rfl, hs⟩)
    refine ⟨call, rfl, List.mem_append_left _ ?_⟩
    change .numbered call (n.counter call.topic) ∈ n.log
    rw [hcounter]
    exact hs

theorem Numbering.started_unique (h : n.Numbering) {call call' : PublishCall}
    (hcall : .started call ∈ n.log) (hcall' : .started call' ∈ n.log) (hid : call.id = call'.id) :
    call = call' := by
  have heq := eq_of_countP_le_one (h.starts call'.id) hcall hcall'
    (by simp [BrokerEvent.starts, hid]) (by simp [BrokerEvent.starts])
  simpa using heq

theorem Numbering.number_unique (h : n.Numbering) {call call' : PublishCall} {s s' : UInt64}
    (hs : .numbered call s ∈ n.log) (hs' : .numbered call' s' ∈ n.log) (hid : call.id = call'.id) :
    call = call' ∧ s = s' := by
  have hcount : n.log.countP (BrokerEvent.numbers call'.id) ≤ 1 := by
    have hstarts := h.starts call'.id
    have htaken := h.taken call'.id
    omega
  have heq := eq_of_countP_le_one hcount hs hs' (by simp [BrokerEvent.numbers, hid])
    (by simp [BrokerEvent.numbers])
  simpa using heq

theorem Copied.number_of_carries (h : n.Copied) (hnumbering : n.Numbering) {call : PublishCall}
    {s : UInt64} (hcarries : n.Carries call s) : .numbered call s ∈ n.log := by
  obtain ⟨hstarted, hs | ⟨message, hholds, hid, rfl⟩⟩ := hcarries
  · exact hs
  · obtain ⟨call', hid', hs⟩ := h message hholds
    have hstarted' : .started call' ∈ n.log := hnumbering.before.of_mem TakenBefore.append hs
    rwa [hnumbering.started_unique hstarted hstarted' (hid.symm.trans hid'.symm)]

/-- A call that is started after another one has returned takes a greater number. -/
theorem lt_of_returned (h : n.Numbering) (hincreasing : n.Increasing)
    {before after : List BrokerEvent} {call call' : PublishCall} {s s' : UInt64}
    (hlog : n.log = before ++ .started call' :: after) (hreturned : .returned call.id ∈ before)
    (htopic : call.topic = call'.topic) (hs : .numbered call s ∈ n.log)
    (hs' : .numbered call' s' ∈ n.log) : s < s' := by
  have hpreceded := h.before
  rw [hlog] at hpreceded
  have hprefix := (preceded_append.mp hpreceded).1
  obtain ⟨call₁, s₁, hid, hs₁⟩ : TakenBefore before (.returned call.id) :=
    hprefix.of_mem TakenBefore.append hreturned
  have hmem : .numbered call₁ s₁ ∈ n.log := by
    rw [hlog]
    exact List.mem_append_left _ hs₁
  obtain ⟨rfl, rfl⟩ := h.number_unique hmem hs hid
  have hlater : .numbered call' s' ∈ after := by
    rw [hlog] at hs'
    rcases List.mem_append.mp hs' with hearly | hlate
    · have hstarted : .started call' ∈ before := hprefix.of_mem TakenBefore.append hearly
      have hone := h.starts call'.id
      have hpos : 0 < before.countP (BrokerEvent.starts call'.id) :=
        List.countP_pos_iff.mpr ⟨_, hstarted, by simp [BrokerEvent.starts]⟩
      rw [hlog, List.countP_append, List.countP_cons] at hone
      simp only [BrokerEvent.starts, decide_true, if_true] at hone
      omega
    · simpa using hlate
  have hpairwise := hincreasing.increasing
  rw [hlog, List.pairwise_append] at hpairwise
  exact hpairwise.2.2 _ hs₁ _ (List.mem_cons_of_mem _ hlater) htopic

theorem lt_or_lt_of_numbered (hincreasing : n.Increasing) {call call' : PublishCall} {s s' : UInt64}
    (htopic : call.topic = call'.topic) (hid : call.id ≠ call'.id) (hs : .numbered call s ∈ n.log)
    (hs' : .numbered call' s' ∈ n.log) : s < s' ∨ s' < s := by
  obtain ⟨before, after, hlog⟩ := List.append_of_mem hs
  have hpairwise := hincreasing.increasing
  rw [hlog, List.pairwise_append] at hpairwise
  rw [hlog] at hs'
  rcases List.mem_append.mp hs' with hearly | hlate
  · exact Or.inr (hpairwise.2.2 _ hearly _ List.mem_cons_self htopic.symm)
  · rcases List.mem_cons.mp hlate with heq | hlate
    · simp only [BrokerEvent.numbered.injEq] at heq
      exact absurd (congrArg PublishCall.id heq.1.symm) hid
    · exact Or.inl ((List.pairwise_cons.mp hpairwise.2.1).1 _ hlate htopic)

theorem Copied.identifies (h : n.Copied) (hnumbering : n.Numbering) (hincreasing : n.Increasing) :
    n.Identifies := by
  refine ⟨fun call s s' hs hs' => ?_, fun call call' s s' htopic hid hs hs' => ?_,
    fun before call call' after s s' hlog hreturned htopic hs hs' => ?_⟩
  · exact (hnumbering.number_unique (h.number_of_carries hnumbering hs)
      (h.number_of_carries hnumbering hs') rfl).2
  · rcases lt_or_lt_of_numbered hincreasing htopic hid (h.number_of_carries hnumbering hs)
      (h.number_of_carries hnumbering hs') with hlt | hlt
    · exact UInt64.ne_of_lt hlt
    · exact (UInt64.ne_of_lt hlt).symm
  · exact lt_of_returned hnumbering hincreasing hlog hreturned htopic
      (h.number_of_carries hnumbering hs) (h.number_of_carries hnumbering hs')

theorem rereading_eq_some {k : ℕ} {call : PublishCall} :
    n.rereading k = some call ↔ ∃ targets, n.tasks[k]? = some (.resequence call targets) := by
  unfold rereading
  split
  · rename_i call' targets htask
    rw [htask]
    simp
  · rename_i hnot
    exact ⟨fun h => by simp at h, fun ⟨targets, h⟩ => absurd h (hnot call targets)⟩

/-- A call that finds another number makes a copy that carries it. -/
theorem ownNumber_of_identifies (hnumbering : n.Numbering) (a : BrokerAction)
    (h : (n.step a).Identifies) : n.OwnNumber a := by
  cases a with
  | call task => trivial
  | membership nodes => trivial
  | advance k clock sendOk =>
      intro call hcall s hs
      obtain ⟨targets, htask⟩ := rereading_eq_some.mp hcall
      obtain ⟨call', hid, htaken⟩ := mem_numbersTaken.mp hs
      obtain ⟨hpayload, s', hs'⟩ := hnumbering.tasks _ (List.mem_of_getElem? htask)
      obtain ⟨rfl, -⟩ := hnumbering.number_unique htaken hs' hid
      obtain ⟨payload, hp⟩ := Option.ne_none_iff_exists'.mp hpayload
      have hstarted : .started call' ∈ n.log := hnumbering.before.of_mem TakenBefore.append htaken
      let copy := n.network.brokerMessage call' payload (n.counter call'.topic) clock.seconds
      have hcopy : copy ∈
          (n.network.advance k clock sendOk (.resequence call' targets)).2.1.messages := by
        simp only [NetworkBroker.advance, hp, Task.messages, List.mem_singleton]
        rfl
      change (n.advance k clock sendOk).Identifies at h
      rw [advance_eq htask] at h
      exact h.same call' copy.sequence s
        ⟨List.mem_append_left _ hstarted,
          Or.inr ⟨copy, Or.inl ⟨_, mem_tasks_set htask _, hcopy⟩, rfl, rfl⟩⟩
        ⟨List.mem_append_left _ hstarted, Or.inl (List.mem_append_left _ htaken)⟩

theorem numbering_new (localNodeId : NodeId) (nodes : Std.ExtTreeMap NodeId NodeInfo compare) :
    (new localNodeId nodes).Numbering :=
  ⟨fun _ => by simp [new], fun _ => by simp [new, mass], fun _ ht => by simp [new] at ht,
    preceded_nil⟩

theorem numbering_run {localNodeId : NodeId} {nodes : Std.ExtTreeMap NodeId NodeInfo compare}
    {as : List BrokerAction} (has : Admissible step Publishing (new localNodeId nodes) as) :
    (run step (new localNodeId nodes) as).Numbering :=
  invariant_run (I := Numbering) (fun _ _ h hcall => numbering_call h hcall)
    (fun _ _ h => ⟨h.starts, h.taken, h.tasks, h.before⟩)
    (fun _ _ _ clock sendOk h htask _ => numbering_advance h htask clock sendOk)
    (numbering_new localNodeId nodes) has

theorem copied_run {localNodeId : NodeId} {nodes : Std.ExtTreeMap NodeId NodeInfo compare}
    {as : List BrokerAction} (has : Admissible step
      (fun n a => n.Publishing a ∧ n.OwnNumber a ∧ n.NoOverflow a) (new localNodeId nodes) as) :
    (run step (new localNodeId nodes) as).Numbering ∧
      (run step (new localNodeId nodes) as).Increasing ∧
      (run step (new localNodeId nodes) as).Copied := by
  refine invariant_run (I := fun n => n.Numbering ∧ n.Increasing ∧ n.Copied)
    (fun n task h hok => ⟨numbering_call h.1 hok.1, increasing_call h.2.1 task,
      copied_call h.2.2 hok.1⟩)
    (fun _ _ h => ⟨⟨h.1.starts, h.1.taken, h.1.tasks, h.1.before⟩,
      ⟨h.2.1.bounded, h.2.1.increasing⟩, h.2.2⟩)
    (fun n k task clock sendOk h htask hok => ⟨numbering_advance h.1 htask clock sendOk,
      increasing_advance h.2.1 htask clock sendOk hok.2.2,
      copied_advance h.2.2 h.1 htask clock sendOk hok.2.1⟩)
    ⟨numbering_new localNodeId nodes, ⟨fun _ _ hs => by simp [new] at hs, List.Pairwise.nil⟩,
      fun message hholds => absurd hholds (not_holds_new localNodeId nodes)⟩ has

/-- As long as no counter overflows and every call that reads the counter again finds its own
number, the numbers identify the messages. Where a call finds another number, they do not. -/
theorem sequence_numbers (localNodeId : NodeId) (nodes : Std.ExtTreeMap NodeId NodeInfo compare)
    (as : List BrokerAction) (has : Admissible step Publishing (new localNodeId nodes) as) :
    (Admissible step (fun n a => n.OwnNumber a ∧ n.NoOverflow a) (new localNodeId nodes) as →
      (run step (new localNodeId nodes) as).Identifies) ∧
      ((∀ before after, as = before ++ after →
        (run step (new localNodeId nodes) before).Identifies) →
        Admissible step OwnNumber (new localNodeId nodes) as) := by
  constructor
  · intro hown
    obtain ⟨hnumbering, hincreasing, hcopied⟩ := copied_run (admissible_and.mpr ⟨has, hown⟩)
    exact hcopied.identifies hnumbering hincreasing
  · intro h
    refine admissible_iff_forall.mpr fun before a after heq => ?_
    have hnumbering := numbering_run (admissible_append.mp (heq ▸ has)).1
    refine ownNumber_of_identifies hnumbering a ?_
    have hnext := h (before ++ [a]) after (by simp [heq])
    rwa [run_append] at hnext

instance decidablePublishing (n : BrokerNode) (a : BrokerAction) : Decidable (n.Publishing a) :=
  match a with
  | .call task => inferInstanceAs (Decidable (n.Enabled (.call task) ∧ task.receives = false ∧
      ∀ call ∈ task.publication, ∀ e ∈ n.log, e.starts call.id = false))
  | .advance k clock sendOk =>
    inferInstanceAs (Decidable (n.Enabled (.advance k clock sendOk) ∧ True))
  | .membership nodes => inferInstanceAs (Decidable (n.Enabled (.membership nodes) ∧ True))

instance decidableOwnNumber (n : BrokerNode) (a : BrokerAction) : Decidable (n.OwnNumber a) :=
  match a with
  | .call _ => isTrue trivial
  | .membership _ => isTrue trivial
  | .advance k _ _ => decidable_of_iff (∀ call ∈ n.rereading k,
      (numbersTaken call.id n.log).all fun s => n.counter call.topic = s)
      (by simp only [List.all_eq_true, decide_eq_true_eq]; rfl)

instance decidableNoOverflow (n : BrokerNode) (a : BrokerAction) : Decidable (n.NoOverflow a) :=
  match a with
  | .call _ => isTrue trivial
  | .membership _ => isTrue trivial
  | .advance k _ _ => inferInstanceAs (Decidable (∀ call ∈ n.taking k,
      n.counter call.topic + 1 ≠ 0))

def firstPrice : PublishCall := ⟨"prices", some [1], .atMostOnce, 7⟩

def secondPrice : PublishCall := ⟨"prices", some [2], .atMostOnce, 8⟩

/-- A remote node and a local actor subscribe, and two messages are to be published. -/
def twoPublications : List BrokerAction :=
  [.call (.handleRemoteSubscription "prices" 1), .advance 0 ⟨0, 0⟩ true,
    .call (.subscribe "prices" ⟨.atMostOnce, 100, false, none⟩ false), .advance 1 ⟨0, 0⟩ true,
    .call (.publish firstPrice), .call (.publish secondPrice)]

/-- One after the other. -/
def inTurn : List BrokerAction :=
  twoPublications ++ List.replicate 8 (.advance 2 ⟨0, 0⟩ true) ++
    List.replicate 8 (.advance 3 ⟨0, 0⟩ true)

/-- The second one takes its number before the first one reads the counter again. -/
def overlapping : List BrokerAction :=
  twoPublications ++ [.advance 2 ⟨0, 0⟩ true, .advance 3 ⟨0, 0⟩ true] ++
    List.replicate 7 (.advance 2 ⟨0, 0⟩ true)

theorem sequence_numbers_inTurn : (run step (new 0 ∅) inTurn).Identifies :=
  (sequence_numbers 0 ∅ inTurn (by decide +kernel)).1 (by decide +kernel)

/-- The first message is handed to the local actor with the number 1 and sent with the number 2. -/
theorem not_sequence_numbers : ¬ ∀ (localNodeId : NodeId)
    (nodes : Std.ExtTreeMap NodeId NodeInfo compare) (as : List BrokerAction),
    Admissible step Publishing (new localNodeId nodes) as →
      (run step (new localNodeId nodes) as).Identifies := by
  intro h
  have hlog : (run step (new 0 ∅) overlapping).log =
      [.announced "prices" 1 true, .started firstPrice, .started secondPrice,
        .numbered firstPrice 1, .numbered secondPrice 2,
        .handed 1 ⟨"prices", [1], 7, 0, 0, 1, .atMostOnce⟩, .routed firstPrice {1},
        .sent {1} (.brokerMessage ⟨"prices", [1], 7, 0, 0, 2, .atMostOnce⟩), .returned 7] := rfl
  have hsame := (h 0 ∅ overlapping (by decide +kernel)).same firstPrice 1 2
    ⟨by simp [hlog], Or.inr ⟨⟨"prices", [1], 7, 0, 0, 1, .atMostOnce⟩,
      Or.inr (Or.inr ⟨.handed 1 _, by simp [hlog], List.mem_singleton_self _⟩), rfl, rfl⟩⟩
    ⟨by simp [hlog], Or.inr ⟨⟨"prices", [1], 7, 0, 0, 2, .atMostOnce⟩,
      Or.inr (Or.inr ⟨.sent {1} (.brokerMessage _), by simp [hlog], List.mem_singleton_self _⟩),
      rfl, rfl⟩⟩
  exact absurd hsame (by decide)

end BrokerNode

end ActixPura
