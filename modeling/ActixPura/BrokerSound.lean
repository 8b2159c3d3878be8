import ActixPura.BrokerHoldings

/-!
# Nothing lost, nothing twice

The invariant of the broker. What is held of a type is what was subscribed to it, and what is due of
an issued message is what its audience has to get, both up to mailboxes that are closed. A message
takes over what it has to be sent to from the list of its type, which at rest is all that is held;
every other step only moves what is held and what is due.
-/

namespace ActixPura.ActixBroker

open Runs

variable {V : Type*}

namespace BrokerRun

variable {s s' : BrokerRun V} {call : Issue V} {m : TypeId}

structure Sound (s : BrokerRun V) : Prop where
  kept : ∀ m, PermUpTo (fun e => s.Closed e.recipient) (s.held m)
    (s.made.filter fun e => decide (e.type = m))
  due : ∀ call ∈ s.issues, PermUpTo (fun p => s.Closed p.2)
    (s.due.filter fun p => decide (p.1 = call.number))
    ((s.audience call).map fun sub => (call.number, sub))
  made : (s.made.map fun e => e.recipient.number) = List.range s.made.length
  issues : s.issues.map Issue.number = List.range s.issues.length
  before : ∀ call ∈ s.issues, call.madeBefore ≤ s.made.length
  number : ∀ p ∈ s.due, p.1 < s.issues.length
  calls : ∀ call ∈ s.calls, call ∈ s.issues
  sent : ∀ d ∈ s.sent, ∃ call ∈ s.issues, d.issue = call.number ∧ d.message = call.message
  faithful : s.Faithful

theorem sound_new : (new : BrokerRun V).Sound := by
  refine ⟨fun m => PermUpTo.refl _, ?_, rfl, rfl, ?_, ?_, ?_, ?_, ?_⟩
  all_goals simp [new, due, sends, pending, Handler.pending, calls, Handler.calls, Faithful]

theorem Sound.moves (hs : s.Sound) (h : Moves s s') : s'.Sound := by
  have hclosed : s'.Closed = s.Closed := by
    funext sub
    rw [Closed, Closed, h.isOpen]
  refine ⟨?_, ?_, ?_, ?_, ?_, ?_, ?_, ?_, h.faithful⟩
  · intro m
    rw [hclosed, h.made]
    exact (h.held m).trans (hs.kept m)
  · intro call hcall
    rw [h.issues] at hcall
    rw [hclosed, audience, h.made]
    exact (h.due.filter _).trans (hs.due call hcall)
  · rw [h.made]
    exact hs.made
  · rw [h.issues]
    exact hs.issues
  · rw [h.issues, h.made]
    exact hs.before
  · rw [h.issues]
    exact fun p hp => hs.number p (h.due.subset hp)
  · rw [h.issues]
    exact fun call hcall => hs.calls call (h.calls call hcall)
  · rw [h.issues]
    intro d hd
    rcases h.sent d hd with hd | ⟨-, call, hcall, hd⟩
    · exact hs.sent d hd
    · exact ⟨call, hs.calls call hcall, hd⟩

theorem Sound.close (hs : s.Sound) (mailbox : ℕ) :
    ({ s with isOpen := Function.update s.isOpen mailbox false } : BrokerRun V).Sound := by
  have hclosed : ∀ sub, s.Closed sub →
      ({ s with isOpen := Function.update s.isOpen mailbox false } : BrokerRun V).Closed sub := by
    intro sub h
    by_cases hsub : sub.mailbox = mailbox
    · simp [Closed, hsub]
    · simpa [Closed, Function.update_of_ne hsub] using h
  exact ⟨fun m => (hs.kept m).mono fun e => hclosed e.recipient,
    fun call hcall => (hs.due call hcall).mono fun p => hclosed p.2, hs.made, hs.issues, hs.before,
    hs.number, hs.calls, hs.sent, hs.faithful⟩

theorem handler_of_idle (h : s.handler.isIdle = true) : s.handler = .idle := by
  cases hhandler : s.handler with
  | idle => rfl
  | issueAsync | doSend | issueSync => simp [hhandler, Handler.isIdle] at h

theorem outside_of_atRest (h : s.AtRest) : s.outside = [] := by
  simp [outside, handler_of_idle h.1, h.2, Handler.subscriptions]

theorem pending_of_atRest (h : s.AtRest) : s.pending = [] := by
  simp [pending, handler_of_idle h.1, h.2, Handler.pending]

theorem calls_of_atRest (h : s.AtRest) : s.calls = [] := by
  simp [calls, handler_of_idle h.1, h.2, Handler.calls]

/-- At rest the broker has all that is held in its lists. -/
theorem held_of_atRest (h : s.AtRest) (m : TypeId) : s.held m = s.broker.listed m := by
  simp [held, outside_of_atRest h]

theorem Sound.subscribe (hs : s.Sound) (hrest : s.AtRest) (m mailbox id : ℕ) :
    (s.subscribe m mailbox id (s.broker.addSub m (s.nextRecipient mailbox) id)).Sound := by
  refine ⟨?_, ?_, ?_, hs.issues, ?_, hs.number, hs.calls, hs.sent, hs.faithful⟩
  · intro m'
    have hkept := hs.kept m'
    rw [held_of_atRest hrest] at hkept
    rw [held_of_atRest (s := s.subscribe m mailbox id _) hrest]
    by_cases hm : m' = m
    · subst hm
      simp only [BrokerRun.subscribe, Broker.listed_addSub, List.filter_append]
      exact hkept.append (by simpa using PermUpTo.refl _)
    · have hnew : decide (m = m') = false := by simpa using Ne.symm hm
      simp only [BrokerRun.subscribe, Broker.listed_addSub_of_ne hm, List.filter_append,
        List.filter_cons, hnew, List.filter_nil, Bool.false_eq_true, if_false, List.append_nil]
      exact hkept
  · intro call hcall
    have haudience : (s.subscribe m mailbox id
        (s.broker.addSub m (s.nextRecipient mailbox) id)).audience call = s.audience call := by
      have hbefore := hs.before call hcall
      simp only [audience, BrokerRun.subscribe, List.take_append_of_le_length hbefore]
    rw [haudience]
    exact hs.due call hcall
  · simp [BrokerRun.subscribe, nextRecipient, hs.made, List.range_succ]
  · intro call hcall
    exact (hs.before call hcall).trans (by simp [BrokerRun.subscribe])

theorem Sound.number_lt (hs : s.Sound) (hcall : call ∈ s.issues) :
    call.number < s.issues.length := by
  rw [← List.mem_range, ← hs.issues]
  exact List.mem_map_of_mem hcall

section Issuing

variable {loop : List (TypeId × Recipient) → Handler V}

/-- The recipients that a message takes are all of its type. -/
theorem Sound.subscriptions_takeSubs (hs : s.Sound) (hrest : s.AtRest) (call : Issue V) :
    call.subscriptions ((s.broker.takeSubs call.type).1.getD []) = s.broker.listed call.type := by
  refine Broker.takeSubs_eq fun e he => ?_
  rw [← held_of_atRest hrest] at he
  simpa using List.of_mem_filter ((hs.kept call.type).subset he)

theorem Sound.held_issue (hs : s.Sound) (hrest : s.AtRest)
    (hsubs : ∀ subs, (loop subs).subscriptions = call.subscriptions subs) (m : TypeId) :
    (s.issue call loop).held m = s.held m := by
  have hlisted : ∀ e ∈ s.broker.listed call.type, e.type = call.type := by
    rw [← hs.subscriptions_takeSubs hrest call]
    intro e he
    obtain ⟨e', -, rfl⟩ := List.mem_map.mp he
    rfl
  have houtside : (s.issue call loop).outside = s.broker.listed call.type := by
    rw [← hs.subscriptions_takeSubs hrest call, ← hsubs]
    simp [outside, BrokerRun.issue, hrest.2]
  rw [held_of_atRest hrest, held, houtside]
  by_cases hm : m = call.type
  · subst hm
    rw [List.filter_eq_self.mpr (by simpa using hlisted)]
    exact congrArg (· ++ _) Broker.listed_takeSubs
  · rw [List.filter_eq_nil_iff.mpr fun e he => by simpa [hlisted e he] using Ne.symm hm]
    exact (List.append_nil _).trans (Broker.listed_takeSubs_of_ne hm)

theorem calls_issue (hrest : s.AtRest)
    (hcalls : ∀ subs, (loop subs).calls = [call]) : (s.issue call loop).calls = [call] := by
  simp [calls, BrokerRun.issue, hcalls, hrest.2]

theorem due_issue (hrest : s.AtRest)
    (hpending : ∀ subs, (loop subs).pending = call.remaining subs) :
    (s.issue call loop).due =
      s.due ++ call.remaining ((s.broker.takeSubs call.type).1.getD []) := by
  rw [due, due, pending_of_atRest hrest, List.append_nil, ← hpending]
  simp [pending, sends, BrokerRun.issue, hrest.2]

theorem number_of_remaining {subs : List (TypeId × Recipient)} {p : ℕ × Recipient}
    (h : p ∈ call.remaining subs) : p.1 = call.number := by
  obtain ⟨e, -, rfl⟩ := List.mem_map.mp h
  rfl

theorem filter_remaining (subs : List (TypeId × Recipient)) :
    (call.remaining subs).filter (fun p => decide (p.1 = call.number)) = call.remaining subs :=
  List.filter_eq_self.mpr fun p hp => by simpa using number_of_remaining hp

theorem filter_remaining_of_ne {n : ℕ} (h : call.number ≠ n) (subs : List (TypeId × Recipient)) :
    (call.remaining subs).filter (fun p => decide (p.1 = n)) = [] :=
  List.filter_eq_nil_iff.mpr fun p hp => by simpa [number_of_remaining hp] using h

/-- What a new message has to be sent to is its audience, up to mailboxes that are closed. -/
theorem Sound.remaining_audience (hs : s.Sound) (hrest : s.AtRest)
    (hbefore : call.madeBefore = s.made.length) :
    PermUpTo (fun p => s.Closed p.2)
      (call.remaining ((s.broker.takeSubs call.type).1.getD []))
      ((s.audience call).map fun sub => (call.number, sub)) := by
  have hkept := hs.kept call.type
  rw [held_of_atRest hrest, ← hs.subscriptions_takeSubs hrest call] at hkept
  have hothers : PermUpTo (fun p : ℕ × Recipient => s.Closed p.2) _ _ :=
    (hkept.filter fun e => decide (e.id ≠ call.issuer)).map
      (fun (e : Subscription) => (call.number, e.recipient)) fun e he => he
  have hleft : ∀ subs, ((call.subscriptions subs).filter fun e =>
      decide (e.id ≠ call.issuer)).map (fun e => (call.number, e.recipient)) =
        call.remaining subs := by
    intro subs
    simp [Issue.subscriptions, Issue.remaining, List.filter_map, Function.comp_def]
  have hright : ((s.made.filter fun e => decide (e.type = call.type)).filter fun e =>
      decide (e.id ≠ call.issuer)).map (fun e => (call.number, e.recipient)) =
        (s.audience call).map fun sub => (call.number, sub) := by
    rw [audience, hbefore, List.take_length, List.filter_filter, List.map_map]
    congr 1
    refine List.filter_congr fun e _ => ?_
    simp [Bool.and_comm]
  rwa [hleft, hright] at hothers

theorem Sound.issue (hs : s.Sound) (hrest : s.AtRest) (message : V) (issuer : TypeId)
    (hcalls : ∀ subs, (loop subs).calls = [s.nextIssue m message issuer])
    (hsubs : ∀ subs, (loop subs).subscriptions = (s.nextIssue m message issuer).subscriptions subs)
    (hpending : ∀ subs, (loop subs).pending = (s.nextIssue m message issuer).remaining subs) :
    (s.issue (s.nextIssue m message issuer) loop).Sound := by
  have hdue : (s.issue (s.nextIssue m message issuer) loop).due = s.due ++ _ :=
    due_issue hrest hpending
  refine ⟨?_, ?_, hs.made, ?_, ?_, ?_, ?_, ?_, ?_⟩
  · intro m'
    rw [hs.held_issue hrest hsubs]
    exact hs.kept m'
  · intro call hcall
    rw [hdue, List.filter_append]
    rcases List.mem_append.mp hcall with hcall | hcall
    · have hne : (s.nextIssue m message issuer).number ≠ call.number := (hs.number_lt hcall).ne'
      rw [filter_remaining_of_ne hne, List.append_nil]
      exact hs.due call hcall
    · obtain rfl := List.mem_singleton.mp hcall
      have hnone : s.due.filter (fun p =>
          decide (p.1 = (s.nextIssue m message issuer).number)) = [] := by
        refine List.filter_eq_nil_iff.mpr fun p hp => ?_
        have hne : p.1 ≠ (s.nextIssue m message issuer).number := (hs.number p hp).ne
        simpa using hne
      rw [hnone, filter_remaining, List.nil_append]
      exact hs.remaining_audience hrest rfl
  · simp [BrokerRun.issue, nextIssue, hs.issues, List.range_succ]
  · intro call hcall
    rcases List.mem_append.mp hcall with hcall | hcall
    · exact hs.before call hcall
    · obtain rfl := List.mem_singleton.mp hcall
      exact le_rfl
  · intro p hp
    rw [hdue] at hp
    simp only [BrokerRun.issue, List.length_append, List.length_singleton]
    rcases List.mem_append.mp hp with hp | hp
    · exact (hs.number p hp).trans (Nat.lt_succ_self _)
    · rw [number_of_remaining hp]
      exact Nat.lt_succ_self _
  · intro call hcall
    rw [calls_issue hrest hcalls] at hcall
    exact List.mem_append_right _ hcall
  · intro d hd
    obtain ⟨call, hcall, h⟩ := hs.sent d hd
    exact ⟨call, List.mem_append_left _ hcall, h⟩
  · exact hs.faithful

end Issuing

theorem Sound.step (hs : s.Sound) {a : BrokerAction V} (ha : s.Admits a) : (s.step a).Sound := by
  cases a with
  | subscribeAsync m mailbox id => exact hs.subscribe ha m mailbox id
  | subscribeSync m mailbox id =>
      have h := hs.subscribe ha m mailbox id
      exact ⟨h.kept, h.due, h.made, h.issues, h.before, h.number, h.calls, h.sent, h.faithful⟩
  | issueAsync m message issuer =>
      exact hs.issue ha message issuer (fun _ => rfl) (fun _ => rfl) fun _ => rfl
  | issueSync m message issuer =>
      exact hs.issue ha message issuer (fun _ => rfl) (fun _ => rfl) fun _ => rfl
  | advance parked => exact hs.moves (moves_advance hs.faithful parked)
  | poll parked answered => exact hs.moves (moves_pollWait hs.faithful parked answered)
  | close mailbox => exact hs.close mailbox

end BrokerRun

end ActixPura.ActixBroker
