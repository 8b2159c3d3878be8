import ActixPura.RaftLog

/-!
# How far a response moves the commit index

`handle_append_entries_response` walks over the whole log and raises the commit index entry by
entry, applying what was committed each time. Its result is described without the walk: the commit
index is the largest index of the current term that a majority holds, and the state machine is given
everything from the old commit index up to the new one, the entries of older terms that the walk
skipped included.
-/

namespace ActixPura.RaftNode

open Std (ExtTreeMap)

/-- The followers known to hold the entry of an index. -/
def holders (n : RaftNode) (index : ℕ) : Finset String :=
  (n.matchIndex.keys.filter fun f => index ≤ (n.matchIndex[f]?).getD 0).toFinset

/-- The index of an entry of the current term that a strict majority of the nodes, the node itself
included, is known to hold. -/
def Committable (n : RaftNode) (index : ℕ) : Prop :=
  (∃ e ∈ n.log, e.index = index ∧ e.term = n.currentTerm) ∧
    n.clusterNodes.length + 1 < 2 * (1 + (n.holders index).card)

/-- The entry is given to the state machine. -/
def applyEntry (clock : Clock) (m : TradingStateMachine) (e : LogEntry) : TradingStateMachine :=
  ((m.apply (clock e.index).1 (clock e.index).2 e.command).1).updateApplied e.index e.term

/-- The node after everything up to an index was committed and applied. -/
def commitTo (clock : Clock) (n : RaftNode) (index : ℕ) : RaftNode :=
  { n with
    commitIndex := index
    lastApplied := index
    stateMachine := (List.range' (n.commitIndex + 1) (index - n.commitIndex)).foldl
      (applyIndex clock n.log) n.stateMachine }

variable {n : RaftNode} {clock : Clock}

theorem replicationCount_eq_card (n : RaftNode) (index : ℕ) :
    n.replicationCount index = 1 + (n.holders index).card := by
  have hnodup : (n.matchIndex.keys.filter fun f => index ≤ (n.matchIndex[f]?).getD 0).Nodup :=
    ExtTreeMap.nodup_keys.filter _
  rw [holders, List.toFinset_card_of_nodup hnodup, ← List.countP_eq_length_filter,
    ← ExtTreeMap.map_fst_toList_eq_keys, List.countP_map, replicationCount, Nat.add_comm]
  congr 1
  refine List.countP_congr fun e he => ?_
  simp [ExtTreeMap.mem_toList_iff_getElem?_eq_some.mp he]

theorem commitTo_self (happlied : n.lastApplied = n.commitIndex) :
    n.commitTo clock n.commitIndex = n := by
  cases n
  dsimp only at happlied
  subst happlied
  simp [commitTo]

theorem commitTo_commitTo {i j : ℕ} (hi : n.commitIndex ≤ i) (hij : i ≤ j) :
    (n.commitTo clock i).commitTo clock j = n.commitTo clock j := by
  have hrange : List.range' (n.commitIndex + 1) (j - n.commitIndex) =
      List.range' (n.commitIndex + 1) (i - n.commitIndex) ++ List.range' (i + 1) (j - i) := by
    have hstart : i + 1 = n.commitIndex + 1 + (i - n.commitIndex) := by omega
    rw [hstart, List.range'_append_1]
    congr 1
    omega
  simp only [commitTo, hrange, List.foldl_append]

/-- One round of the walk, where everything committed was applied before. -/
theorem commitEntry_eq (happlied : n.lastApplied = n.commitIndex) (e : LogEntry) :
    commitEntry clock n e =
      if e.term = n.currentTerm ∧ n.commitIndex < e.index ∧
        n.clusterNodes.length + 1 < 2 * (1 + (n.holders e.index).card)
      then n.commitTo clock e.index else n := by
  rw [commitEntry, replicationCount_eq_card, Nat.mul_comm]
  split_ifs with hcommit
  · simp [applyCommittedEntries, commitTo, happlied, hcommit.2.1.le]
  · rfl

/-- The walk over entries of growing indices ends at the largest one that can be committed. -/
theorem foldl_commitEntry_eq (clock : Clock) {entries : List LogEntry}
    (hsorted : entries.Pairwise fun e e' => e.index < e'.index) {n : RaftNode}
    (happlied : n.lastApplied = n.commitIndex) :
    ∃ index, entries.foldl (commitEntry clock) n = n.commitTo clock index ∧
      n.commitIndex ≤ index ∧
      (n.commitIndex < index → ∃ e ∈ entries, e.index = index ∧ e.term = n.currentTerm ∧
        n.clusterNodes.length + 1 < 2 * (1 + (n.holders index).card)) ∧
      ∀ e ∈ entries, e.term = n.currentTerm → n.commitIndex < e.index →
        n.clusterNodes.length + 1 < 2 * (1 + (n.holders e.index).card) → e.index ≤ index := by
  induction entries generalizing n with
  | nil => exact ⟨n.commitIndex, (commitTo_self happlied).symm, le_rfl, by simp, by simp⟩
  | cons e es ih =>
      obtain ⟨hhead, htail⟩ := List.pairwise_cons.mp hsorted
      rw [List.foldl_cons, commitEntry_eq happlied]
      split_ifs with hcommit
      · obtain ⟨index, hfold, hle, hentry, hgreatest⟩ :=
          ih htail (n := n.commitTo clock e.index) rfl
        refine ⟨index, ?_, hcommit.2.1.le.trans hle, fun _ => ?_, ?_⟩
        · rw [hfold, commitTo_commitTo hcommit.2.1.le hle]
        · rcases hle.eq_or_lt with heq | hlt
          · have hindex : e.index = index := heq
            exact ⟨e, List.mem_cons_self, hindex, hcommit.1, hindex ▸ hcommit.2.2⟩
          · obtain ⟨x, hx, hrest⟩ := hentry hlt
            exact ⟨x, List.mem_cons_of_mem e hx, hrest⟩
        · intro x hx hterm hlt hmajority
          rcases List.mem_cons.mp hx with rfl | hx
          · exact hle
          · exact hgreatest x hx hterm (hhead x hx) hmajority
      · obtain ⟨index, hfold, hle, hentry, hgreatest⟩ := ih htail happlied
        refine ⟨index, hfold, hle, fun hlt => ?_, ?_⟩
        · obtain ⟨x, hx, hrest⟩ := hentry hlt
          exact ⟨x, List.mem_cons_of_mem e hx, hrest⟩
        · intro x hx hterm hlt hmajority
          rcases List.mem_cons.mp hx with rfl | hx
          · exact absurd ⟨hterm, hlt, hmajority⟩ hcommit
          · exact hgreatest x hx hterm hlt hmajority

end RaftNode

namespace Numbered

variable {log : List LogEntry}

theorem index_lt (h : Numbered log) : log.Pairwise fun e e' => e.index < e'.index := by
  rw [List.pairwise_iff_getElem]
  intro i j hi hj hij
  rw [h i _ (List.getElem?_eq_getElem hi), h j _ (List.getElem?_eq_getElem hj)]
  omega

/-- The loop of `apply_committed_entries` on a numbered log is a pass over a part of it. -/
theorem foldl_applyIndex (h : Numbered log) (clock : Clock) (start count : ℕ)
    (hle : start + count ≤ log.length) (m : TradingStateMachine) :
    (List.range' (start + 1) count).foldl (RaftNode.applyIndex clock log) m =
      ((log.drop start).take count).foldl (RaftNode.applyEntry clock) m := by
  induction count generalizing start m with
  | zero => simp
  | succ count ih =>
      have hlt : start < log.length := by omega
      have hget := List.getElem?_eq_getElem hlt
      have hfirst : RaftNode.applyIndex clock log m (start + 1) =
          RaftNode.applyEntry clock m log[start] := by
        have hindex := h start _ hget
        simp only [RaftNode.applyIndex, h.entryAt_eq, hget, RaftNode.applyEntry, hindex]
      rw [List.range'_succ, List.foldl_cons, hfirst, List.drop_eq_getElem_cons hlt,
        List.take_succ_cons, List.foldl_cons]
      exact ih (start + 1) (by omega) _

end Numbered

namespace RaftNode

variable {n : RaftNode} {clock : Clock}

/-- After a successful response the commit index is the largest one above the old one that can be
committed, and exactly the entries in between were given to the state machine. -/
theorem commit_advance (clock : Clock) (hnumbered : Numbered n.log)
    (happlied : n.lastApplied = n.commitIndex) (hle : n.commitIndex ≤ n.log.length)
    (followerId : String) {term : ℕ} (matchIndex : ℕ) (hterm : term ≤ n.currentTerm) :
    let recorded := n.recordMatch followerId matchIndex
    let n' := (n.handleAppendEntriesResponse clock followerId
      (.appendEntriesResponse term true matchIndex)).1
    (IsGreatest {i | n.commitIndex < i ∧ recorded.Committable i} n'.commitIndex ∨
        n'.commitIndex = n.commitIndex ∧ ∀ i, n.commitIndex < i → ¬ recorded.Committable i) ∧
      n'.lastApplied = n'.commitIndex ∧
      n'.stateMachine =
        ((n.log.drop n.commitIndex).take (n'.commitIndex - n.commitIndex)).foldl (applyEntry clock)
          n.stateMachine ∧
      ((n.log.drop n.commitIndex).take (n'.commitIndex - n.commitIndex)).map LogEntry.index =
        List.range' (n.commitIndex + 1) (n'.commitIndex - n.commitIndex) := by
  intro recorded n'
  obtain ⟨index, hfold, hge, hentry, hgreatest⟩ :=
    foldl_commitEntry_eq clock hnumbered.index_lt (n := recorded) happlied
  have hn' : n' = recorded.commitTo clock index := by
    rw [← hfold]
    simp only [n', handleAppendEntriesResponse, not_lt.mpr hterm, if_false, if_true]
    rfl
  have hindex : n'.commitIndex = index := by rw [hn']; rfl
  have hbound : index ≤ n.log.length := by
    rcases hge.eq_or_lt with heq | hlt
    · rw [← heq]
      exact hle
    · obtain ⟨e, he, rfl, -⟩ := hentry hlt
      exact hnumbered.index_le he
  rw [hindex]
  refine ⟨?_, by rw [hn']; rfl, ?_, ?_⟩
  · rcases hge.eq_or_lt with heq | hlt
    · refine Or.inr ⟨heq.symm, fun i hi hcommittable => ?_⟩
      obtain ⟨⟨e, he, rfl, hcurrent⟩, hmajority⟩ := hcommittable
      have hle' := hgreatest e he hcurrent hi hmajority
      exact absurd (hi.trans_le (hle'.trans heq.ge)) (lt_irrefl _)
    · obtain ⟨e, he, hidx, hcurrent, hmajority⟩ := hentry hlt
      refine Or.inl ⟨⟨hlt, ⟨e, he, hidx, hcurrent⟩, hmajority⟩, ?_⟩
      rintro i ⟨hi, ⟨x, hx, rfl, hxcurrent⟩, hxmajority⟩
      exact hgreatest x hx hxcurrent hi hxmajority
  · rw [hn']
    exact hnumbered.foldl_applyIndex clock n.commitIndex (index - n.commitIndex) (by omega) _
  · rw [List.map_take, List.map_drop, hnumbered.map_index, List.drop_range',
      List.take_range'_of_length_ge (by omega)]
    congr 1
    omega

/-- A leader of term 2 whose first entry is from term 1. -/
def secondTerm : RaftNode :=
  { new "a" with
    currentTerm := 2
    log := [⟨1, 1, .adminCommand (.removeNode "x")⟩, ⟨2, 2, .adminCommand (.removeNode "y")⟩]
    state := .leader
    clusterNodes := ["b", "c"] }

/-- One follower is enough for the second entry, and the first one is applied with it. -/
theorem commit_advance_secondTerm :
    let n' := (secondTerm.handleAppendEntriesResponse (fun _ => (0, 0)) "b"
      (.appendEntriesResponse 2 true 2)).1
    n'.commitIndex = 2 ∧ n'.stateMachine =
      ((secondTerm.log.drop 0).take 2).foldl (applyEntry fun _ => (0, 0)) .new := by
  intro n'
  have hcommit : n'.commitIndex = 2 := by decide +kernel
  have hnumbered : Numbered secondTerm.log := by
    intro i e he
    match i with
    | 0 => cases he; rfl
    | 1 => cases he; rfl
  refine ⟨hcommit, ?_⟩
  obtain ⟨-, -, hmachine, -⟩ := commit_advance (fun _ => (0, 0)) hnumbered rfl
    (Nat.zero_le _) "b" 2 (le_refl 2)
  have hsame : n'.commitIndex - secondTerm.commitIndex = 2 := hcommit
  rw [hsame] at hmachine
  exact hmachine

end RaftNode

end ActixPura
