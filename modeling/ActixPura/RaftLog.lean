import ActixPura.RaftNode

/-!
# Log functions on numbered logs

A log is numbered when its indices are exactly `1, 2, …, n` in this order. On numbered logs the
searches of the source by index are reads by position, the truncation and the selection of entries
are `take` and `drop`, and the append loop of `append_entries` with its final sort is a plain
concatenation.
-/

namespace ActixPura

def Numbered (log : List LogEntry) : Prop :=
  ∀ (i : ℕ) (e : LogEntry), log[i]? = some e → e.index = i + 1

namespace Numbered

variable {log : List LogEntry}

theorem nil : Numbered [] := by
  intro i e he
  simp at he

theorem restrict (h : Numbered log) {l : List LogEntry} (hl : l <+: log) : Numbered l := by
  intro i e he
  obtain ⟨r, rfl⟩ := hl
  apply h i e
  rw [List.getElem?_append_left (List.getElem?_eq_some_iff.mp he).1, he]

theorem concat (h : Numbered log) {e : LogEntry} (he : e.index = log.length + 1) :
    Numbered (log ++ [e]) := by
  intro i x hx
  by_cases hlt : i < log.length
  · rw [List.getElem?_append_left hlt] at hx
    exact h i x hx
  · have hi := (List.getElem?_eq_some_iff.mp hx).1
    rw [List.length_append, List.length_singleton] at hi
    have hlen : i = log.length := by omega
    subst i
    have hxe : e = x := by simpa using hx
    rw [← hxe, he]

theorem map_index (h : Numbered log) : log.map LogEntry.index = List.range' 1 log.length := by
  apply List.ext_getElem
  · simp
  · intro i hi hi'
    have hlt : i < log.length := by simpa using hi
    have hidx := h i log[i] (List.getElem?_eq_getElem hlt)
    simp [hidx, Nat.add_comm]

theorem index_le (h : Numbered log) {e : LogEntry} (he : e ∈ log) : e.index ≤ log.length := by
  obtain ⟨i, hi, rfl⟩ := List.mem_iff_getElem.mp he
  rw [h i _ (List.getElem?_eq_getElem hi)]
  omega

theorem index_pos (h : Numbered log) {e : LogEntry} (he : e ∈ log) : 0 < e.index := by
  obtain ⟨i, hi, rfl⟩ := List.mem_iff_getElem.mp he
  rw [h i _ (List.getElem?_eq_getElem hi)]
  omega

theorem getElem?_index (h : Numbered log) {e : LogEntry} (he : e ∈ log) :
    log[e.index - 1]? = some e := by
  obtain ⟨i, hi, rfl⟩ := List.mem_iff_getElem.mp he
  rw [h i _ (List.getElem?_eq_getElem hi), Nat.add_sub_cancel, List.getElem?_eq_getElem hi]

theorem lastLogIndex_eq (h : Numbered log) : lastLogIndex log = log.length := by
  rcases List.eq_nil_or_concat log with rfl | ⟨l, e, rfl⟩
  · rfl
  · have hlast : (l.concat e)[l.length]? = some e := by simp
    simp [lastLogIndex, h _ _ hlast]

theorem nextLogIndex_eq (h : Numbered log) : nextLogIndex log = log.length + 1 := by
  have hlast := h.lastLogIndex_eq
  unfold lastLogIndex at hlast
  unfold nextLogIndex
  cases hl : log.getLast? with
  | none => simp [List.getLast?_eq_none_iff.mp hl]
  | some e =>
      rw [hl, Option.map_some, Option.getD_some] at hlast
      simp [hlast]

theorem entryAt_eq (h : Numbered log) (i : ℕ) : entryAt log (i + 1) = log[i]? := by
  unfold entryAt
  cases he : log[i]? with
  | none =>
      rw [List.find?_eq_none]
      intro e hmem
      have hle := h.index_le hmem
      have hlen : log.length ≤ i := List.getElem?_eq_none_iff.mp he
      simp only [beq_iff_eq]
      omega
  | some e =>
      cases hf : log.find? (fun e => e.index == i + 1) with
      | none =>
          have hno := List.find?_eq_none.mp hf e (List.mem_of_getElem? he)
          simp [h i e he] at hno
      | some x =>
          have hx : x.index = i + 1 := by simpa using List.find?_some hf
          have hget := h.getElem?_index (List.mem_of_find?_eq_some hf)
          rw [hx, Nat.add_sub_cancel, he] at hget
          exact hget.symm

theorem logConsistent_iff (h : Numbered log) {prev prevTerm : ℕ} :
    logConsistent log prev prevTerm = true ↔
      prev = 0 ∨ ∃ e, log[prev - 1]? = some e ∧ e.index = prev ∧ e.term = prevTerm := by
  simp only [logConsistent, Bool.or_eq_true, beq_iff_eq, List.any_eq_true, Bool.and_eq_true]
  constructor
  · rintro (h0 | ⟨e, he, hidx, hterm⟩)
    · exact Or.inl h0
    · exact Or.inr ⟨e, hidx ▸ h.getElem?_index he, hidx, hterm⟩
  · rintro (h0 | ⟨e, he, hidx, hterm⟩)
    · exact Or.inl h0
    · exact Or.inr ⟨e, List.mem_of_getElem? he, hidx, hterm⟩

theorem index_le_of_mem_take (h : Numbered log) {k : ℕ} {e : LogEntry} (he : e ∈ log.take k) :
    e.index ≤ k := by
  have hk := (h.restrict (List.take_prefix k log)).index_le he
  rw [List.length_take] at hk
  omega

theorem lt_index_of_mem_drop (h : Numbered log) {k : ℕ} {e : LogEntry} (he : e ∈ log.drop k) :
    k < e.index := by
  obtain ⟨i, hi⟩ := List.mem_iff_getElem?.mp he
  rw [List.getElem?_drop] at hi
  rw [h _ e hi]
  omega

theorem filter_le (h : Numbered log) (k : ℕ) :
    log.filter (fun e => decide (e.index ≤ k)) = log.take k := by
  conv_lhs => rw [← List.take_append_drop k log]
  rw [List.filter_append, List.filter_eq_self.mpr, List.filter_eq_nil_iff.mpr, List.append_nil]
  · intro e he
    simpa using h.lt_index_of_mem_drop he
  · intro e he
    simpa using h.index_le_of_mem_take he

theorem filter_ge (h : Numbered log) (k : ℕ) :
    log.filter (fun e => decide (k ≤ e.index)) = log.drop (k - 1) := by
  conv_lhs => rw [← List.take_append_drop (k - 1) log]
  rw [List.filter_append, List.filter_eq_nil_iff.mpr, List.nil_append, List.filter_eq_self.mpr]
  · intro e he
    have hlt := h.lt_index_of_mem_drop he
    simp only [decide_eq_true_eq]
    omega
  · intro e he
    have hle := h.index_le_of_mem_take he
    have hpos := h.index_pos (List.mem_of_mem_take he)
    simp only [decide_eq_true_eq]
    omega

theorem prevLogTerm_eq (h : Numbered log) (prev : ℕ) : prevLogTerm log prev =
    if prev = 0 then 0 else ((log[prev - 1]?).map LogEntry.term).getD 0 := by
  unfold prevLogTerm
  cases prev with
  | zero => rfl
  | succ prev => simp [h.entryAt_eq]

/-- The append loop on top of a log: entries that continue the numbering are all appended. -/
theorem foldl_pushEntry {entries : List LogEntry} (h : Numbered (log ++ entries)) (k : ℕ) :
    (entries.foldl pushEntry (log, k)).1 = log ++ entries ∧
      (entries ≠ [] → (entries.foldl pushEntry (log, k)).2 = log.length + entries.length) := by
  induction entries generalizing log k with
  | nil => simp
  | cons e es ih =>
      have he : (log ++ e :: es)[log.length]? = some e := by simp
      have hidx := h _ e he
      have hpush : pushEntry (log, k) e = (log ++ [e], e.index) := by
        unfold pushEntry
        rw [if_neg]
        rw [Bool.not_eq_true, List.any_eq_false]
        intro x hx
        have hle := (h.restrict (List.prefix_append log (e :: es))).index_le hx
        simp only [beq_iff_eq]
        omega
      have hsplit : log ++ e :: es = (log ++ [e]) ++ es := by simp
      rw [hsplit] at h
      obtain ⟨hlog, hmatch⟩ := ih h e.index
      rw [List.foldl_cons, hpush, hlog, hsplit]
      refine ⟨rfl, fun _ => ?_⟩
      by_cases hes : es = []
      · subst es
        simp [hidx]
      · rw [hmatch hes]
        simp only [List.length_append, List.length_cons, List.length_nil]
        omega

theorem sorted (h : Numbered log) : log.Pairwise (fun a b => a.index ≤ b.index) := by
  rw [List.pairwise_iff_getElem]
  intro i j hi hj hij
  rw [h i _ (List.getElem?_eq_getElem hi), h j _ (List.getElem?_eq_getElem hj)]
  omega

/-- `append_entries` replaces everything after `prev_log_index` by the entries it received. -/
theorem mergeEntries_eq (h : Numbered log) {prev : ℕ} {entries : List LogEntry}
    (hne : entries ≠ []) (hprev : prev ≤ log.length) (hnum : Numbered (log.take prev ++ entries)) :
    mergeEntries log prev entries = (log.take prev ++ entries, prev + entries.length) := by
  have hempty : entries.isEmpty = false := by simpa using hne
  obtain ⟨hlog, hmatch⟩ := foldl_pushEntry hnum prev
  have hlen := hmatch hne
  rw [List.length_take, min_eq_left hprev] at hlen
  simp only [mergeEntries, hempty, h.filter_le, Bool.false_eq_true, if_false]
  rw [hlog, hlen, List.Pairwise.insertionSort_eq hnum.sorted]

end Numbered

@[simp] theorem mergeEntries_nil (log : List LogEntry) (prev : ℕ) :
    mergeEntries log prev [] = (log, prev) := rfl

end ActixPura
