import ActixPura.RaftLog

/-!
# One request for appended entries, and the same one again

What `append_entries` does to a numbered log when the entries of the request go on from
`prev_log_index`: an accepted request leaves the log up to there and puts its entries after it, and
the `match_index` that the leader counts from is the number of entries that are then known to agree.
A request that arrives twice in a row changes nothing the second time; the time of the last
heartbeat, which is all that is renewed, is not part of the node here.
-/

namespace ActixPura

/-- The indices go on from the given one. -/
def NumberedFrom (prev : ℕ) (entries : List LogEntry) : Prop :=
  ∀ (i : ℕ) (e : LogEntry), entries[i]? = some e → e.index = prev + 1 + i

/-- The log that an accepted request leaves. -/
def appended (log : List LogEntry) (prev : ℕ) (entries : List LogEntry) : List LogEntry :=
  if entries = [] then log else log.take prev ++ entries

namespace Numbered

variable {log : List LogEntry}

theorem take_append (h : Numbered log) {prev : ℕ} (hprev : prev ≤ log.length)
    {entries : List LogEntry} (hentries : NumberedFrom prev entries) :
    Numbered (log.take prev ++ entries) := by
  intro i e he
  have hlen : (log.take prev).length = prev := by simpa using hprev
  rcases lt_or_ge i prev with hlt | hge
  · rw [List.getElem?_append_left (by omega)] at he
    exact h.restrict (List.take_prefix prev log) i e he
  · rw [List.getElem?_append_right (by omega), hlen] at he
    rw [hentries _ e he]
    omega

theorem prev_le_length (h : Numbered log) {prev prevTerm : ℕ}
    (hconsistent : logConsistent log prev prevTerm = true) : prev ≤ log.length := by
  rcases h.logConsistent_iff.mp hconsistent with rfl | ⟨e, he, hindex, -⟩
  · exact Nat.zero_le _
  · rw [← hindex]
    exact h.index_le (List.mem_of_getElem? he)

/-- The consistency check looks at nothing after `prev_log_index`. -/
theorem logConsistent_of_take {log' : List LogEntry} (h : Numbered log) (h' : Numbered log')
    {prev prevTerm : ℕ} (htake : log'.take prev = log.take prev) :
    logConsistent log' prev prevTerm = logConsistent log prev prevTerm := by
  have hsame : 0 < prev → log'[prev - 1]? = log[prev - 1]? := by
    intro hpos
    have hlt : prev - 1 < prev := by omega
    rw [← List.getElem?_take_of_lt hlt, htake, List.getElem?_take_of_lt hlt]
  rw [Bool.eq_iff_iff, h.logConsistent_iff, h'.logConsistent_iff]
  rcases Nat.eq_zero_or_pos prev with hzero | hpos
  · simp [hzero]
  · rw [hsame hpos]

/-- Truncation and append on a numbered log, whether or not there is anything to append. -/
theorem mergeEntries_spec (h : Numbered log) {prev : ℕ} (hprev : prev ≤ log.length)
    {entries : List LogEntry} (hentries : NumberedFrom prev entries) :
    mergeEntries log prev entries = (appended log prev entries, prev + entries.length) := by
  unfold appended
  split_ifs with hempty
  · rw [hempty, mergeEntries_nil]
    rfl
  · exact h.mergeEntries_eq hempty hprev (h.take_append hprev hentries)

end Numbered

namespace RaftNode

variable {n : RaftNode} {term prev prevTerm leaderCommit : ℕ} {leaderId : String}
  {entries : List LogEntry}

theorem commitAfter_again (n : RaftNode) (log : List LogEntry) (leaderCommit : ℕ) {n' : RaftNode}
    (hcommit : n'.commitIndex = n.commitAfter log leaderCommit) :
    n'.commitAfter log leaderCommit = n.commitAfter log leaderCommit := by
  unfold commitAfter at hcommit ⊢
  rw [hcommit]
  by_cases hraised : n.commitIndex < leaderCommit
  · rw [if_pos hraised]
    exact ite_self _
  · rw [if_neg hraised, if_neg hraised]

theorem take_appended {log : List LogEntry} (hprev : prev ≤ log.length) (entries : List LogEntry) :
    (appended log prev entries).take prev = log.take prev := by
  unfold appended
  split_ifs
  · rfl
  · rw [List.take_append_of_le_length (by simpa using hprev), List.take_take, min_self]

theorem appendEntries_of_accepted (hnumbered : Numbered n.log)
    (hentries : NumberedFrom prev entries) (h : n.Accepts term prev prevTerm) :
    n.appendEntries (.appendEntries term leaderId prev prevTerm entries leaderCommit) =
      ({ n.observeTerm term with
          currentLeaderId := some leaderId
          log := appended n.log prev entries
          commitIndex := n.commitAfter (appended n.log prev entries) leaderCommit },
        .appendEntriesResponse term true (prev + entries.length)) := by
  rw [n.appendEntries_accepted h,
    hnumbered.mergeEntries_spec (hnumbered.prev_le_length h.2) hentries]

/-- A node that accepted a request accepts it again and stays as it is. -/
theorem appendEntries_again_accepted (hnumbered : Numbered n.log)
    (hentries : NumberedFrom prev entries) (h : n.Accepts term prev prevTerm) :
    let r := n.appendEntries (.appendEntries term leaderId prev prevTerm entries leaderCommit)
    r.1.appendEntries (.appendEntries term leaderId prev prevTerm entries leaderCommit) = r := by
  have hprev := hnumbered.prev_le_length h.2
  intro r
  have hr : r = _ := appendEntries_of_accepted hnumbered hentries h
  set log' := appended n.log prev entries with hlog'
  have htake : log'.take prev = n.log.take prev := take_appended hprev entries
  have hnumbered' : Numbered log' := by
    rw [hlog', appended]
    split_ifs
    · exact hnumbered
    · exact hnumbered.take_append hprev hentries
  have hsame : appended log' prev entries = log' := by
    rw [hlog', appended, ← hlog', htake, hlog', appended]
    split_ifs <;> rfl
  have hcurrent : r.1.currentTerm = term := by
    rw [hr]
    exact (n.observeTerm_currentTerm term).trans (max_eq_right h.1)
  have haccepts : r.1.Accepts term prev prevTerm := by
    refine ⟨hcurrent.le, ?_⟩
    rw [hr]
    exact (Numbered.logConsistent_of_take hnumbered hnumbered' htake).trans h.2
  have hlog : r.1.log = log' := by rw [hr]
  have hcommit : r.1.commitAfter log' leaderCommit = n.commitAfter log' leaderCommit :=
    commitAfter_again n log' leaderCommit (by rw [hr])
  rw [appendEntries_of_accepted (hlog ▸ hnumbered') hentries haccepts,
    observeTerm_of_ge r.1 hcurrent.ge, hlog, hsame, hcommit, hr]

/-- A refused request leaves the log and the commit index, and is refused again. -/
theorem appendEntries_of_refused (h : ¬ n.Accepts term prev prevTerm) (leaderId : String)
    (entries : List LogEntry) (leaderCommit : ℕ) :
    let r := n.appendEntries (.appendEntries term leaderId prev prevTerm entries leaderCommit)
    (∃ t, r.2 = .appendEntriesResponse t false 0) ∧
      r.1.log = n.log ∧ r.1.commitIndex = n.commitIndex ∧
      r.1.appendEntries (.appendEntries term leaderId prev prevTerm entries leaderCommit) = r := by
  intro r
  by_cases hlt : term < n.currentTerm
  · have hr : r = (n, .appendEntriesResponse n.currentTerm false 0) := by
      simp [r, appendEntries, hlt]
    refine ⟨⟨_, congrArg Prod.snd hr⟩, by rw [hr], by rw [hr], ?_⟩
    rw [hr]
    exact hr
  · have hbad : logConsistent n.log prev prevTerm = false := by
      rw [← Bool.not_eq_true]
      exact fun hgood => h ⟨not_lt.mp hlt, hgood⟩
    have hr : r = ({ n.observeTerm term with currentLeaderId := some leaderId },
        .appendEntriesResponse (n.observeTerm term).currentTerm false 0) := by
      simp [r, appendEntries, hlt, hbad]
    have hcurrent : r.1.currentTerm = term := by
      rw [hr]
      exact (n.observeTerm_currentTerm term).trans (max_eq_right (not_lt.mp hlt))
    have hlog : r.1.log = n.log := by
      rw [hr]
      exact n.observeTerm_log term
    refine ⟨⟨_, congrArg Prod.snd hr⟩, hlog, ?_, ?_⟩
    · rw [hr]
      exact n.observeTerm_commitIndex term
    · have hagain : r.1.appendEntries
          (.appendEntries term leaderId prev prevTerm entries leaderCommit) =
          ({ r.1.observeTerm term with currentLeaderId := some leaderId },
            .appendEntriesResponse (r.1.observeTerm term).currentTerm false 0) := by
        simp [appendEntries, hcurrent, hlog, hbad]
      rw [hagain, observeTerm_of_ge r.1 hcurrent.ge, hr]

/-- What a request does to the log, and that the same request again does nothing. -/
theorem appendEntries_spec (hnumbered : Numbered n.log) (hentries : NumberedFrom prev entries)
    (term prevTerm leaderCommit : ℕ) (leaderId : String) :
    let request := RaftRequestMessage.appendEntries term leaderId prev prevTerm entries leaderCommit
    let r := n.appendEntries request
    (∀ t matchIndex, r.2 = .appendEntriesResponse t true matchIndex →
      matchIndex = prev + entries.length ∧ prev ≤ n.log.length ∧
        r.1.log.take prev = n.log.take prev ∧
        (entries ≠ [] → r.1.log.drop prev = entries) ∧ (entries = [] → r.1.log = n.log)) ∧
    (∀ t matchIndex, r.2 = .appendEntriesResponse t false matchIndex →
      r.1.log = n.log ∧ r.1.commitIndex = n.commitIndex) ∧
    r.1.appendEntries request = r := by
  intro request r
  by_cases h : n.Accepts term prev prevTerm
  · have hprev := hnumbered.prev_le_length h.2
    have hlen : (n.log.take prev).length = prev := by simpa using hprev
    have hr : r = _ := appendEntries_of_accepted hnumbered hentries h
    have hlog : r.1.log = appended n.log prev entries := by rw [hr]
    have hanswer : r.2 = .appendEntriesResponse term true (prev + entries.length) := by rw [hr]
    refine ⟨fun t matchIndex hsuccess => ?_, fun t matchIndex hfailure => ?_,
      appendEntries_again_accepted hnumbered hentries h⟩
    · obtain ⟨-, -, hmatch⟩ := RaftResponseMessage.appendEntriesResponse.inj
        (hanswer.symm.trans hsuccess)
      rw [hlog]
      refine ⟨hmatch.symm, hprev, take_appended hprev entries, fun hne => ?_,
        fun hempty => if_pos hempty⟩
      · rw [appended, if_neg hne, List.drop_append_of_le_length hlen.ge,
          List.drop_eq_nil_of_le hlen.le, List.nil_append]
    · cases hanswer.symm.trans hfailure
  · obtain ⟨⟨t, hanswer⟩, hlog, hcommit, hagain⟩ := appendEntries_of_refused h
      leaderId entries leaderCommit
    refine ⟨fun t' matchIndex hsuccess => ?_, fun _ _ _ => ⟨hlog, hcommit⟩, hagain⟩
    cases hanswer.symm.trans hsuccess

/-- A follower with two entries is sent another second one. -/
theorem appendEntries_spec_overwrite :
    let n : RaftNode := { new "b" with
      currentTerm := 1
      log := [⟨1, 1, .adminCommand (.removeNode "x")⟩, ⟨1, 2, .adminCommand (.removeNode "y")⟩] }
    let request := RaftRequestMessage.appendEntries 2 "a" 1 1
      [⟨2, 2, .adminCommand (.removeNode "z")⟩] 2
    let r := n.appendEntries request
    r.1.log.length = 2 ∧ r.1.log.drop 1 = [⟨2, 2, .adminCommand (.removeNode "z")⟩] ∧
      r.1.appendEntries request = r := by
  intro n request r
  have hnumbered : Numbered n.log := by
    intro i e he
    match i with
    | 0 => cases he; rfl
    | 1 => cases he; rfl
  have hentries : NumberedFrom 1 [⟨2, 2, .adminCommand (.removeNode "z")⟩] := by
    intro i e he
    match i with
    | 0 => cases he; rfl
  obtain ⟨hsuccess, -, hagain⟩ := appendEntries_spec hnumbered hentries 2 1 2 "a"
  obtain ⟨-, -, -, hdrop, -⟩ := hsuccess 2 2 (by decide +kernel)
  exact ⟨by decide +kernel, hdrop (List.cons_ne_nil _ _), hagain⟩

end RaftNode

end ActixPura
