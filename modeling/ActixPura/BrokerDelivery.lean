import ActixPura.BrokerSound

/-!
# Delivery to every open subscriber

Every reachable state holds each subscription of an open mailbox once, and an issued message that is
no longer underway has been sent once to every open mailbox of its audience.

A broker that is not at rest has finitely many steps of its own before it is. In a run whose
handlers go on and whose wait futures complete it comes to rest again and again, and with that every
message gets to its audience.
-/

namespace ActixPura.ActixBroker

open Runs

variable {V : Type*}

namespace BrokerRun

variable {s s' : BrokerRun V} {call : Issue V} {m : TypeId}

/-- An issued message has been sent once to whom it is for, and to no other, and the broker has the
subscriptions that were made. -/
structure DeliversOnce (s : BrokerRun V) : Prop where
  toAudience : ∀ d ∈ s.sent, ∃ call ∈ s.issues, d.issue = call.number ∧ d.message = call.message ∧
    d.recipient ∈ s.audience call
  atMostOnce : ∀ call ∈ s.issues, ∀ sub, s.timesSent call sub ≤ 1
  toEveryOpen : ∀ call ∈ s.issues, ¬ s.Underway call → ∀ sub ∈ s.audience call,
    s.isOpen sub.mailbox = true → s.timesSent call sub = 1
  heldOnce : ∀ e ∈ s.made, s.isOpen e.recipient.mailbox = true → (s.held e.type).count e = 1
  onlyMade : ∀ m, ∀ e ∈ s.held m, e ∈ s.made ∧ e.type = m ∧ (s.held m).count e = 1

theorem Sound.nodup_made (hs : s.Sound) : s.made.Nodup :=
  List.Nodup.of_map _ (hs.made ▸ List.nodup_range)

theorem Sound.nodup_held (hs : s.Sound) (m : TypeId) : (s.held m).Nodup :=
  (hs.kept m).nodup (hs.nodup_made.filter _)

/-- The subscriptions have recipients of their own. -/
theorem Sound.nodup_audience (hs : s.Sound) (call : Issue V) : (s.audience call).Nodup := by
  have hmade : (s.made.map Subscription.recipient).Nodup := by
    refine List.Nodup.of_map Recipient.number ?_
    rw [List.map_map]
    exact hs.made ▸ List.nodup_range
  have hsub : (s.audience call).Sublist (s.made.map Subscription.recipient) :=
    (List.filter_sublist.trans (List.take_sublist _ _)).map _
  exact hmade.sublist hsub

theorem Sound.nodup_due (hs : s.Sound) (hcall : call ∈ s.issues) :
    (s.due.filter fun p => decide (p.1 = call.number)).Nodup := by
  refine (hs.due call hcall).nodup ((hs.nodup_audience call).map fun sub sub' h => ?_)
  exact (Prod.mk.inj h).2

theorem timesSent_le (hcall : call ∈ s.issues) (hs : s.Sound) (sub : Recipient) :
    s.timesSent call sub ≤ 1 := by
  have hsends : (s.sends.filter fun p => decide (p.1 = call.number)).Nodup := by
    refine (hs.nodup_due hcall).sublist (List.Sublist.filter _ ?_)
    exact List.sublist_append_left _ _
  have hcount := List.nodup_iff_count_le_one.mp hsends (call.number, sub)
  rwa [List.count_filter (by simp)] at hcount

theorem mem_calls_of_handler {handler : Handler V} {p : ℕ × Recipient}
    (h : p ∈ handler.pending) : ∃ call ∈ handler.calls, call.number = p.1 := by
  cases handler with
  | idle => simp [Handler.pending] at h
  | issueAsync call subs => exact ⟨call, List.mem_singleton_self _, (number_of_remaining h).symm⟩
  | issueSync call subs => exact ⟨call, List.mem_singleton_self _, (number_of_remaining h).symm⟩
  | doSend call id sub subs =>
      refine ⟨call, List.mem_singleton_self _, ?_⟩
      rcases List.mem_cons.mp h with rfl | h
      · rfl
      · exact (number_of_remaining h).symm

/-- What is pending is so for a message that is underway. -/
theorem mem_calls_of_pending {p : ℕ × Recipient} (h : p ∈ s.pending) :
    ∃ call ∈ s.calls, call.number = p.1 := by
  rcases List.mem_append.mp h with h | h
  · obtain ⟨call, hcall, hnumber⟩ := mem_calls_of_handler h
    exact ⟨call, List.mem_append_left _ hcall, hnumber⟩
  · obtain ⟨w, hw, hp⟩ := List.mem_flatMap.mp h
    obtain ⟨msg, -, rfl⟩ := List.mem_map.mp hp
    exact ⟨w.call, List.mem_append_right _ (List.mem_map_of_mem hw), rfl⟩

theorem Sound.eq_of_number (hs : s.Sound) {call' : Issue V} (hcall : call ∈ s.issues)
    (hcall' : call' ∈ s.issues) (h : call.number = call'.number) : call = call' :=
  List.inj_on_of_nodup_map (hs.issues ▸ List.nodup_range) hcall hcall' h

theorem Sound.timesSent_eq (hs : s.Sound) (hcall : call ∈ s.issues) (hdone : ¬ s.Underway call)
    {sub : Recipient} (hsub : sub ∈ s.audience call) (hopen : s.isOpen sub.mailbox = true) :
    s.timesSent call sub = 1 := by
  have hdue := (hs.due call hcall).mem (List.mem_map_of_mem hsub) (by simp [Closed, hopen])
  have hsent : (call.number, sub) ∈ s.sends := by
    rcases List.mem_append.mp (List.mem_of_mem_filter hdue) with hsent | hpending
    · exact hsent
    · obtain ⟨call', hcall', hnumber⟩ := mem_calls_of_pending hpending
      obtain rfl := hs.eq_of_number (hs.calls call' hcall') hcall hnumber
      exact absurd hcall' hdone
  exact le_antisymm (timesSent_le hcall hs sub) (List.one_le_count_iff.mpr hsent)

theorem Sound.deliversOnce (hs : s.Sound) : s.DeliversOnce := by
  refine ⟨?_, fun call hcall => timesSent_le hcall hs, ?_, ?_, ?_⟩
  · intro d hd
    obtain ⟨call, hcall, hnumber, hmessage⟩ := hs.sent d hd
    refine ⟨call, hcall, hnumber, hmessage, ?_⟩
    have hdue : (d.issue, d.recipient) ∈ s.due := List.mem_append_left _ (List.mem_map_of_mem hd)
    have haudience := (hs.due call hcall).subset
      (List.mem_filter.mpr ⟨hdue, by simpa using hnumber⟩)
    obtain ⟨sub, hsub, heq⟩ := List.mem_map.mp haudience
    exact (Prod.mk.inj heq).2 ▸ hsub
  · exact fun call hcall hdone sub hsub hopen => hs.timesSent_eq hcall hdone hsub hopen
  · intro e he hopen
    refine List.count_eq_one_of_mem (hs.nodup_held e.type) ?_
    refine (hs.kept e.type).mem (List.mem_filter.mpr ⟨he, by simp⟩) ?_
    simp [Closed, hopen]
  · intro m e he
    have hmade := List.mem_filter.mp ((hs.kept m).subset he)
    exact ⟨hmade.1, by simpa using hmade.2, List.count_eq_one_of_mem (hs.nodup_held m) he⟩

/-- The type whose subscriptions a step may touch: that of the message that is handled or of the
future that is polled. -/
def handling (s : BrokerRun V) : BrokerAction V → Option TypeId
  | .subscribeAsync m _ _ | .subscribeSync m _ _ | .issueAsync m _ _ | .issueSync m _ _ => some m
  | .advance _ => s.handler.calls.head?.map Issue.type
  | .poll _ _ => s.wait.head?.map fun w => w.call.type
  | .close _ => none

theorem subMap_advance (parked : Bool)
    (hm : s.handler.calls.head?.map Issue.type ≠ some m) :
    (s.advance parked).broker.subMap m = s.broker.subMap m := by
  have hne : ∀ call : Issue V, s.handler.calls = [call] → m ≠ call.type := by
    intro call hcalls heq
    exact hm (by rw [hcalls, heq]; rfl)
  cases hhandler : s.handler with
  | idle => simp [advance, hhandler]
  | issueAsync call subs =>
      have hcall := hne call (by rw [hhandler]; rfl)
      cases subs with
      | nil => simp only [advance, hhandler]; rfl
      | cons e subs =>
          simp only [advance, hhandler]
          split_ifs
          · exact Broker.subMap_addSub_of_ne hcall
          · split
            · exact Broker.subMap_addSub_of_ne hcall
            · rfl
            · rfl
  | doSend call id sub subs =>
      simp only [advance, hhandler]
      exact Broker.subMap_addSub_of_ne (hne call (by rw [hhandler]; rfl))
  | issueSync call subs =>
      have hcall := hne call (by rw [hhandler]; rfl)
      cases subs with
      | nil => simp only [advance, hhandler]; rfl
      | cons e subs =>
          simp only [advance, hhandler]
          split_ifs
          · exact Broker.subMap_addSub_of_ne hcall
          · rfl

theorem subMap_pollWait (parked answered : Bool)
    (hm : (s.wait.head?.map fun w => w.call.type) ≠ some m) :
    (s.pollWait parked answered).broker.subMap m = s.broker.subMap m := by
  cases hwait : s.wait with
  | nil => simp [pollWait, hwait]
  | cons w items =>
      have hne : m ≠ w.call.type := by
        rw [hwait] at hm
        exact fun h => hm (by rw [h]; rfl)
      simp only [pollWait, hwait]
      split
      · exact Broker.subMap_addSub_of_ne hne
      · rfl

/-- The subscriptions to other types are left as they are. -/
theorem subMap_step {a : BrokerAction V} (hm : s.handling a ≠ some m) :
    (s.step a).broker.subMap m = s.broker.subMap m := by
  have hne : ∀ {m'}, some m' ≠ some m → m ≠ m' := fun h heq => h (congrArg some heq.symm)
  cases a with
  | subscribeAsync m' mailbox id => exact Broker.subMap_addSub_of_ne (hne hm)
  | subscribeSync m' mailbox id => exact Broker.subMap_addSub_of_ne (hne hm)
  | issueAsync m' message issuer => exact Broker.subMap_takeSubs_of_ne (hne hm)
  | issueSync m' message issuer => exact Broker.subMap_takeSubs_of_ne (hne hm)
  | advance parked => exact subMap_advance parked hm
  | poll parked answered => exact subMap_pollWait parked answered hm
  | close mailbox => rfl

/-- What is sent by a step is sent to an open mailbox. -/
theorem Sound.sent_step (hs : s.Sound) {a : BrokerAction V} :
    ∀ d ∈ (s.step a).sent, d ∈ s.sent ∨ s.isOpen d.recipient.mailbox = true := by
  intro d hd
  cases a with
  | advance parked => exact ((moves_advance hs.faithful parked).sent d hd).imp_right And.left
  | poll parked answered =>
      exact ((moves_pollWait hs.faithful parked answered).sent d hd).imp_right And.left
  | _ => exact Or.inl hd

/-- An upper bound on the steps that the broker itself has to do before it is at rest. -/
def weight (s : BrokerRun V) : ℕ :=
  (match s.handler with
    | .idle => 0
    | .issueAsync _ subs | .issueSync _ subs => 2 * subs.length + 1
    | .doSend _ _ _ subs => 2 * subs.length + 2) + s.wait.length

theorem atRest_of_weight (h : s.weight = 0) : s.AtRest := by
  unfold weight at h
  cases hhandler : s.handler with
  | idle => exact ⟨by simp [hhandler, Handler.isIdle], by simpa [hhandler] using h⟩
  | issueAsync | doSend | issueSync => simp [hhandler] at h

theorem weight_of_atRest (h : s.AtRest) : s.weight = 0 := by
  simp [weight, handler_of_idle h.1, h.2]

theorem weight_advance (parked : Bool) (hidle : s.handler.isIdle = false) :
    (s.advance parked).weight < s.weight := by
  cases hhandler : s.handler with
  | idle => simp [hhandler, Handler.isIdle] at hidle
  | issueAsync call subs =>
      cases subs with
      | nil => simp [advance, weight, hhandler, goto, setMsg]
      | cons e subs =>
          simp only [advance, hhandler]
          split_ifs
          · simp [weight, hhandler, goto, addSub]
          · split <;> simp only [weight, hhandler, goto, addSub, queue, List.length_cons] <;> omega
  | doSend call id sub subs => simp [advance, weight, hhandler, goto, addSub, queue]
  | issueSync call subs =>
      cases subs with
      | nil => simp [advance, weight, hhandler, goto, setMsg]
      | cons e subs =>
          simp only [advance, hhandler]
          split_ifs
          · simp [weight, hhandler, goto, addSub]
          · simp only [weight, hhandler, goto, queue, List.length_cons]
            omega

/-- Whether a poll completes the wait future. -/
def ready (s : BrokerRun V) (parked answered : Bool) : Bool :=
  match s.wait with
  | [] => false
  | w :: _ => (w.request.poll parked (s.isOpen w.recipient.mailbox) answered).2.2

theorem weight_pollWait (parked answered : Bool) :
    ((s.pollWait parked answered).weight < s.weight ∨
      s.ready parked answered = false ∧ (s.pollWait parked answered).weight = s.weight) ∧
      (s.pollWait parked answered).handler = s.handler := by
  cases hwait : s.wait with
  | nil =>
      have hsame : s.pollWait parked answered = s := by rw [pollWait, hwait]
      rw [hsame]
      exact ⟨Or.inr ⟨by rw [ready, hwait], rfl⟩, rfl⟩
  | cons w items =>
      rcases hpoll : w.request.poll parked (s.isOpen w.recipient.mailbox) answered with
        ⟨request, message, done⟩
      cases done with
      | true =>
          simp only [pollWait, hwait, hpoll]
          refine ⟨Or.inl ?_, rfl⟩
          simp [weight, hwait, addSub, queue]
      | false =>
          simp only [pollWait, ready, hwait, hpoll]
          refine ⟨Or.inr ⟨trivial, ?_⟩, rfl⟩
          simp [weight, hwait, queue]

/-- As long as the broker is not at rest a step brings it nearer, or leaves its handler alone. -/
theorem weight_step {a : BrokerAction V} (ha : s.Admits a) (hweight : s.weight ≠ 0) :
    (s.step a).weight < s.weight ∨
      (s.step a).weight = s.weight ∧ (s.step a).handler = s.handler := by
  have hrest : ¬ s.AtRest := fun h => hweight (weight_of_atRest h)
  cases a with
  | subscribeAsync | subscribeSync | issueAsync | issueSync => exact absurd ha hrest
  | advance parked =>
      cases hidle : s.handler.isIdle with
      | true =>
          have hsame : s.advance parked = s := by rw [advance, handler_of_idle hidle]
          exact Or.inr ⟨congrArg weight hsame, congrArg handler hsame⟩
      | false => exact Or.inl (weight_advance parked hidle)
  | poll parked answered =>
      obtain ⟨hlt | ⟨-, heq⟩, hhandler⟩ := s.weight_pollWait parked answered
      · exact Or.inl hlt
      · exact Or.inr ⟨heq, hhandler⟩
  | close mailbox => exact Or.inr ⟨rfl, rfl⟩

/-- The only message that a step can begin is the next one. -/
theorem calls_step {a : BrokerAction V} (hs : s.Sound) (ha : s.Admits a)
    (hcall : call ∈ (s.step a).calls) : call ∈ s.calls ∨ call.number = s.issues.length := by
  cases a with
  | subscribeAsync | subscribeSync | close => exact Or.inl hcall
  | issueAsync m message issuer =>
      rw [step, calls_issue ha fun _ => rfl] at hcall
      exact Or.inr (congrArg Issue.number (List.mem_singleton.mp hcall))
  | issueSync m message issuer =>
      rw [step, calls_issue ha fun _ => rfl] at hcall
      exact Or.inr (congrArg Issue.number (List.mem_singleton.mp hcall))
  | advance parked => exact Or.inl ((moves_advance hs.faithful parked).calls call hcall)
  | poll parked answered =>
      exact Or.inl ((moves_pollWait hs.faithful parked answered).calls call hcall)

theorem issues_step {a : BrokerAction V} (hs : s.Sound) (hcall : call ∈ s.issues) :
    call ∈ (s.step a).issues := by
  cases a with
  | subscribeAsync | subscribeSync | close => exact hcall
  | issueAsync | issueSync => exact List.mem_append_left _ hcall
  | advance parked => exact (moves_advance hs.faithful parked).issues ▸ hcall
  | poll parked answered => exact (moves_pollWait hs.faithful parked answered).issues ▸ hcall

end BrokerRun

structure BrokerExecution (V : Type*) where
  state : ℕ → BrokerRun V
  action : ℕ → BrokerAction V
  start : state 0 = .new
  admitted : ∀ t, (state t).Admits (action t)
  next : ∀ t, state (t + 1) = (state t).step (action t)

namespace BrokerExecution

variable (e : BrokerExecution V)

/-- A handler goes on, and the wait future that is polled completes. -/
structure Completes : Prop where
  handler : ∀ t, (e.state t).handler.isIdle = false →
    ∃ t', t ≤ t' ∧ ∃ parked, e.action t' = .advance parked
  wait : ∀ t, (e.state t).handler.isIdle = true → (e.state t).wait ≠ [] →
    ∃ t', t ≤ t' ∧ ∃ parked answered, e.action t' = .poll parked answered ∧
      (e.state t').ready parked answered = true

theorem sound (t : ℕ) : (e.state t).Sound := by
  induction t with
  | zero =>
      rw [e.start]
      exact BrokerRun.sound_new
  | succ t ih =>
      rw [e.next]
      exact ih.step (e.admitted t)

variable {e} {t : ℕ}

/-- Until a step has brought the broker nearer to rest its handler stands where it was. -/
theorem handler_add (hweight : (e.state t).weight ≠ 0) (k : ℕ) :
    (∃ t', t ≤ t' ∧ (e.state t').weight < (e.state t).weight) ∨
      (e.state (t + k)).weight = (e.state t).weight ∧
        (e.state (t + k)).handler = (e.state t).handler := by
  induction k with
  | zero => exact Or.inr ⟨rfl, rfl⟩
  | succ k ih =>
      rcases ih with hlt | ⟨heq, hhandler⟩
      · exact Or.inl hlt
      · have hstep := BrokerRun.weight_step (e.admitted (t + k)) (heq ▸ hweight)
        rw [← e.next, heq, hhandler] at hstep
        rcases hstep with hlt | hsame
        · exact Or.inl ⟨t + k + 1, by omega, hlt⟩
        · exact Or.inr hsame

theorem exists_weight_lt (h : e.Completes) (hweight : (e.state t).weight ≠ 0) :
    ∃ t', t ≤ t' ∧ (e.state t').weight < (e.state t).weight := by
  cases hidle : (e.state t).handler.isIdle with
  | false =>
      obtain ⟨t', ht, parked, haction⟩ := h.handler t hidle
      obtain ⟨k, rfl⟩ := Nat.exists_eq_add_of_le ht
      rcases handler_add hweight k with hlt | ⟨heq, hhandler⟩
      · exact hlt
      · refine ⟨t + k + 1, by omega, ?_⟩
        rw [e.next, haction, ← heq]
        exact BrokerRun.weight_advance parked (hhandler ▸ hidle)
  | true =>
      have hwait : (e.state t).wait ≠ [] := by
        intro hwait
        exact hweight (BrokerRun.weight_of_atRest ⟨hidle, hwait⟩)
      obtain ⟨t', ht, parked, answered, haction, hready⟩ := h.wait t hidle hwait
      obtain ⟨k, rfl⟩ := Nat.exists_eq_add_of_le ht
      rcases handler_add hweight k with hlt | ⟨heq, -⟩
      · exact hlt
      · refine ⟨t + k + 1, by omega, ?_⟩
        rw [e.next, haction, ← heq]
        rcases (BrokerRun.weight_pollWait (s := e.state (t + k)) parked answered).1 with
          hlt | ⟨hnot, -⟩
        · exact hlt
        · rw [hready] at hnot
          cases hnot

/-- The broker comes to rest again and again. -/
theorem exists_atRest (h : e.Completes) (t : ℕ) : ∃ t', t ≤ t' ∧ (e.state t').AtRest := by
  induction hn : (e.state t).weight using Nat.strong_induction_on generalizing t with
  | _ n ih =>
      by_cases hweight : (e.state t).weight = 0
      · exact ⟨t, le_rfl, BrokerRun.atRest_of_weight hweight⟩
      · obtain ⟨t', ht, hlt⟩ := exists_weight_lt h hweight
        obtain ⟨t'', ht', hrest⟩ := ih _ (hn ▸ hlt) t' rfl
        exact ⟨t'', ht.trans ht', hrest⟩

theorem issues_add {call : Issue V} (hcall : call ∈ (e.state t).issues) (k : ℕ) :
    call ∈ (e.state (t + k)).issues := by
  induction k with
  | zero => exact hcall
  | succ k ih =>
      rw [← Nat.add_assoc, e.next]
      exact BrokerRun.issues_step (e.sound (t + k)) ih

/-- A message that is done stays so. -/
theorem not_underway_add {call : Issue V} (hcall : call ∈ (e.state t).issues)
    (hdone : ¬ (e.state t).Underway call) (k : ℕ) : ¬ (e.state (t + k)).Underway call := by
  induction k with
  | zero => exact hdone
  | succ k ih =>
      rw [← Nat.add_assoc, e.next]
      intro hunderway
      have hsound := e.sound (t + k)
      rcases BrokerRun.calls_step hsound (e.admitted (t + k)) hunderway with hcalls | hnew
      · exact ih hcalls
      · exact (hsound.number_lt (issues_add hcall k)).ne hnew

end BrokerExecution

namespace BrokerRun

/-- At each state that the broker can reach what was issued is delivered once and nothing is lost or
duplicated, a step sends to open mailboxes and leaves the other types alone. -/
def Delivers (s : BrokerRun V) : Prop :=
  s.DeliversOnce ∧ ∀ a, s.Admits a →
    (∀ d ∈ (s.step a).sent, d ∈ s.sent ∨ s.isOpen d.recipient.mailbox = true) ∧
      ∀ m, s.handling a ≠ some m → (s.step a).broker.subMap m = s.broker.subMap m

end BrokerRun

/-- Every run delivers once. When handlers go on and wait futures complete, there is after every
moment one at which the lists have all open subscriptions, and from which on the messages issued
before are with all of their audience that is open. -/
theorem broker_delivers :
    (∀ actions, Admissible BrokerRun.step BrokerRun.Admits (BrokerRun.new : BrokerRun V) actions →
      (run BrokerRun.step (BrokerRun.new : BrokerRun V) actions).Delivers) ∧
    ∀ e : BrokerExecution V, e.Completes → ∀ t, ∃ t', t ≤ t' ∧
      (∀ sub ∈ (e.state t').made, (e.state t').isOpen sub.recipient.mailbox = true →
        ((e.state t').broker.listed sub.type).count sub = 1) ∧
      ∀ call ∈ (e.state t).issues, ∀ k, ∀ sub ∈ (e.state (t' + k)).audience call,
        (e.state (t' + k)).isOpen sub.mailbox = true →
          (e.state (t' + k)).timesSent call sub = 1 := by
  constructor
  · intro actions h
    have hsound := invariant_run (I := BrokerRun.Sound) (fun s a hs ha => hs.step ha)
      BrokerRun.sound_new h
    exact ⟨hsound.deliversOnce, fun a _ => ⟨hsound.sent_step, fun m => BrokerRun.subMap_step⟩⟩
  · intro e hcompletes t
    obtain ⟨t', ht, hrest⟩ := BrokerExecution.exists_atRest hcompletes t
    refine ⟨t', ht, ?_, ?_⟩
    · intro sub hsub hopen
      rw [← BrokerRun.held_of_atRest hrest]
      exact (e.sound t').deliversOnce.heldOnce sub hsub hopen
    · intro call hcall k sub hsub hopen
      obtain ⟨j, rfl⟩ := Nat.exists_eq_add_of_le ht
      have hissued := BrokerExecution.issues_add hcall j
      have hdone : ¬ (e.state (t + j)).Underway call := by
        rw [BrokerRun.Underway, BrokerRun.calls_of_atRest hrest]
        exact List.not_mem_nil
      exact (e.sound (t + j + k)).deliversOnce.toEveryOpen call
        (BrokerExecution.issues_add hissued k) (BrokerExecution.not_underway_add hissued hdone k)
        sub hsub hopen

/-- A recipient that is full at first: the wait future sends at its first poll, and is answered
before the second. -/
def fullAtFirst : List (BrokerAction ℕ) :=
  [.subscribeAsync 0 7 1, .issueSync 0 5 2, .advance true, .advance false, .poll false false,
    .poll false true]

def fullState : ℕ → BrokerRun ℕ
  | 0 => .new
  | t + 1 => (fullState t).step (fullAtFirst.getD t (.close 9))

theorem fullState_add (k : ℕ) : (fullState (6 + k)).AtRest := by
  induction k with
  | zero => exact ⟨rfl, rfl⟩
  | succ k ih =>
      have hclose : fullAtFirst.getD (6 + k) (.close 9) = .close 9 :=
        List.getD_eq_default _ _ (by simp [fullAtFirst])
      rw [← Nat.add_assoc, fullState, hclose]
      exact ih

def fullExecution : BrokerExecution ℕ where
  state := fullState
  action t := fullAtFirst.getD t (.close 9)
  start := rfl
  admitted t := by
    rcases Nat.lt_or_ge t 6 with ht | ht
    · interval_cases t
      · exact ⟨rfl, rfl⟩
      · exact ⟨rfl, rfl⟩
      · trivial
      · trivial
      · rfl
      · rfl
    · rw [List.getD_eq_default _ _ (by simpa [fullAtFirst] using ht)]
      trivial
  next _ := rfl

theorem fullExecution_completes : fullExecution.Completes := by
  refine ⟨fun t hidle => ?_, fun t _ hwait => ?_⟩
  · rcases Nat.lt_or_ge t 4 with ht | ht
    · exact ⟨3, by omega, false, rfl⟩
    · have hrest : (fullState t).handler.isIdle = true := by
        rcases Nat.lt_or_ge t 6 with ht' | ht'
        · interval_cases t <;> rfl
        · obtain ⟨k, rfl⟩ := Nat.exists_eq_add_of_le ht'
          exact (fullState_add k).1
      exact absurd (hrest.symm.trans hidle) (by decide)
  · rcases Nat.lt_or_ge t 6 with ht | ht
    · exact ⟨5, by omega, false, true, rfl, rfl⟩
    · obtain ⟨k, rfl⟩ := Nat.exists_eq_add_of_le ht
      exact absurd (fullState_add k).2 hwait

theorem broker_delivers_full :
    (run BrokerRun.step .new fullAtFirst).timesSent ⟨0, 1, 0, 5, 2⟩ ⟨7, 0⟩ = 1 ∧
      fullExecution.Completes ∧ ∃ t', 2 ≤ t' ∧ ∀ sub ∈ (fullExecution.state t').made,
        (fullExecution.state t').isOpen sub.recipient.mailbox = true →
          ((fullExecution.state t').broker.listed sub.type).count sub = 1 := by
  have hadmissible : Admissible BrokerRun.step BrokerRun.Admits .new fullAtFirst :=
    ⟨⟨rfl, rfl⟩, ⟨rfl, rfl⟩, trivial, trivial, rfl, rfl, trivial⟩
  refine ⟨?_, fullExecution_completes, ?_⟩
  · refine (broker_delivers.1 fullAtFirst hadmissible).1.toEveryOpen _ ?_ ?_ _ ?_ rfl
    · exact List.mem_singleton_self _
    · exact List.not_mem_nil
    · exact List.mem_singleton_self _
  · obtain ⟨t', ht, hlisted, -⟩ := broker_delivers.2 fullExecution fullExecution_completes 2
    exact ⟨t', ht, hlisted⟩

end ActixPura.ActixBroker
