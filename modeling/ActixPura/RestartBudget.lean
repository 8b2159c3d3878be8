import ActixPura.Runs

/-!
# The restart budget of a supervised actor

`supervision.rs` of the cluster. The restart strategy allows a number of restarts within a time
window. The supervisor does not keep the times of its restarts, only how many there were and when
the last one was, and it starts to count anew when the last one is more than a window ago. So the
counted restarts may reach back further than the window.

The error of a failure counts by the name of its type only, and the placement of a relocated actor
goes into a log line only.
-/

namespace ActixPura.Supervision

open Runs

/-- In nanoseconds. -/
abbrev Duration := ℕ

def Duration.asSecs (d : Duration) : ℕ := d / 1000000000

/-- A matcher is an error type with the strategy for it. -/
inductive SupervisionStrategy
  | restart (maxRestarts : ℕ) (window delay : Duration)
  | stop
  | escalate
  | relocate (maxRelocations : ℕ) (delay : Duration)
  | resume
  | matching (default : SupervisionStrategy) (matchers : List (String × SupervisionStrategy))

/-- The strategy of the first matcher for the error type, or the default strategy. -/
def matchedStrategy (default : SupervisionStrategy)
    (matchers : List (String × SupervisionStrategy)) (errorType : String) :
    SupervisionStrategy :=
  ((matchers.find? fun matcher => matcher.1 == errorType).map Prod.snd).getD default

theorem sizeOf_matchedStrategy_lt (default : SupervisionStrategy)
    (matchers : List (String × SupervisionStrategy)) (errorType : String) :
    sizeOf (matchedStrategy default matchers errorType) <
      sizeOf (SupervisionStrategy.matching default matchers) := by
  rw [SupervisionStrategy.matching.sizeOf_spec, matchedStrategy]
  cases hfind : matchers.find? fun matcher => matcher.1 == errorType with
  | none =>
      simp only [Option.map_none, Option.getD_none]
      omega
  | some matcher =>
      obtain ⟨errorType', strategy⟩ := matcher
      have hmem := List.sizeOf_lt_of_mem (List.mem_of_find?_eq_some hfind)
      simp only [Prod.mk.sizeOf_spec] at hmem
      simp only [Option.map_some, Option.getD_some]
      omega

def SupervisionStrategy.default : SupervisionStrategy := .restart 10 60000000000 100000000

/-- The address of an actor is its number among the actors that were started. -/
structure DistributedSupervisor where
  strategy : SupervisionStrategy
  restartCount : ℕ
  lastRestart : Option ℕ
  addr : Option ℕ
  started : ℕ

namespace DistributedSupervisor

/-- `new` with the strategy of the actor and the one that was asked for. -/
def new (supervisionStrategy : SupervisionStrategy) (strategy : Option SupervisionStrategy) :
    DistributedSupervisor :=
  ⟨strategy.getD supervisionStrategy, 0, none, none, 0⟩

def start (s : DistributedSupervisor) : DistributedSupervisor :=
  { s with addr := some s.started, started := s.started + 1 }

/-- The difference of the two `u64`, without an overflow check. -/
def secondsSince (last now : ℕ) : ℕ := if last ≤ now then now - last else now + 2 ^ 64 - last

theorem secondsSince_of_le {last now : ℕ} (h : last ≤ now) : secondsSince last now = now - last :=
  if_pos h

/-- The restart count is reset if the last restart is outside the window. -/
def resetCount (window : Duration) (now : ℕ) (s : DistributedSupervisor) : DistributedSupervisor :=
  match s.lastRestart with
  | some last => if window.asSecs < secondsSince last now then { s with restartCount := 0 } else s
  | none => s

/-- A strategy applied to a failure, and the address that is returned; there are no errors. -/
def applyStrategy (s : DistributedSupervisor) (errorType : String) (now : ℕ) :
    SupervisionStrategy → DistributedSupervisor × Option ℕ
  | .stop => (s, none)
  | .resume => (s, s.addr)
  | .restart maxRestarts window _ =>
    let s := s.resetCount window now
    if maxRestarts ≤ s.restartCount then (s, none)
    else
      let s := { s with restartCount := s.restartCount + 1, lastRestart := some now }.start
      (s, s.addr)
  | .relocate maxRelocations _ =>
    if maxRelocations ≤ s.restartCount then (s, none)
    else
      let s := { s with restartCount := s.restartCount + 1 }.start
      (s, s.addr)
  | .escalate => (s, none)
  | .matching default matchers =>
    let (temp, result) := s.applyStrategy errorType now (matchedStrategy default matchers errorType)
    (if result.isSome then temp else s, result)
  termination_by strategy => sizeOf strategy
  decreasing_by exact sizeOf_matchedStrategy_lt default matchers errorType

def handleFailure (s : DistributedSupervisor) (errorType : String) (now : ℕ) :
    DistributedSupervisor × Option ℕ :=
  s.applyStrategy errorType now s.strategy

section ResetCount

variable (window : Duration) (now : ℕ) (s : DistributedSupervisor)

/-- Only the count is reset. -/
theorem resetCount_eq : s.resetCount window now =
    { s with restartCount := (s.resetCount window now).restartCount } := by
  unfold resetCount
  split
  · split_ifs <;> rfl
  · rfl

@[simp] theorem resetCount_strategy : (s.resetCount window now).strategy = s.strategy := by
  rw [resetCount_eq]

@[simp] theorem resetCount_lastRestart :
    (s.resetCount window now).lastRestart = s.lastRestart := by
  rw [resetCount_eq]

@[simp] theorem resetCount_started : (s.resetCount window now).started = s.started := by
  rw [resetCount_eq]

theorem resetCount_cases :
    ((s.resetCount window now).restartCount = 0 ∧
      ∃ last ∈ s.lastRestart, window.asSecs < secondsSince last now) ∨
    ((s.resetCount window now).restartCount = s.restartCount ∧
      ∀ last ∈ s.lastRestart, secondsSince last now ≤ window.asSecs) := by
  unfold resetCount
  cases hlast : s.lastRestart with
  | none => simp
  | some last =>
      by_cases hgap : window.asSecs < secondsSince last now
      · simp [hgap]
      · simp only [if_neg hgap]
        refine Or.inr ⟨trivial, ?_⟩
        rintro _ ⟨⟩
        exact Nat.not_lt.mp hgap

end ResetCount

end DistributedSupervisor

/-! ## Calls -/

inductive SupervisorCall
  | start
  | handleFailure (errorType : String) (time : ℕ)

/-- The time of a failure. -/
def SupervisorCall.time? : SupervisorCall → Option ℕ
  | .start => none
  | .handleFailure _ time => some time

/-- A supervisor with the times of its restarts and the time of the last failure. A restart is a
failure that an actor was started for. -/
structure Supervised where
  supervisor : DistributedSupervisor
  restarts : List ℕ
  clock : ℕ

namespace Supervised

def new (supervisionStrategy : SupervisionStrategy) (strategy : Option SupervisionStrategy) :
    Supervised :=
  ⟨.new supervisionStrategy strategy, [], 0⟩

def step (s : Supervised) : SupervisorCall → Supervised
  | .start => { s with supervisor := s.supervisor.start }
  | .handleFailure errorType time =>
    let supervisor := (s.supervisor.handleFailure errorType time).1
    ⟨supervisor,
      if s.supervisor.started < supervisor.started then s.restarts ++ [time] else s.restarts,
      time⟩

/-- The restarts in the window that ends now. -/
def recent (s : Supervised) (window : Duration) (now : ℕ) : ℕ :=
  s.restarts.countP fun time => decide ((now - time) * 1000000000 ≤ window)

/-- The actor is restarted if there were fewer restarts in the window than are allowed, and
otherwise it is not. -/
def Budgeted (maxRestarts : ℕ) (window : Duration) (s : Supervised) : SupervisorCall → Prop
  | .start => True
  | .handleFailure errorType time =>
    let (supervisor, result) := s.supervisor.handleFailure errorType time
    if s.recent window time < maxRestarts then
      result = some s.supervisor.started ∧ supervisor.started = s.supervisor.started + 1
    else result = none ∧ supervisor.started = s.supervisor.started

/-- The restarts that the restart count counts. -/
def counted (s : Supervised) : List ℕ :=
  s.restarts.drop (s.restarts.length - s.supervisor.restartCount)

/-- A failure that finds the restart count used up comes more than a window after the last restart,
or within a window of the first restart that is counted. -/
def Covered (maxRestarts : ℕ) (window : Duration) (s : Supervised) : SupervisorCall → Prop
  | .start => True
  | .handleFailure _ time => s.supervisor.restartCount = maxRestarts →
    ∀ last ∈ s.supervisor.lastRestart, ∀ first ∈ s.counted.head?,
      window.asSecs < time - last ∨ time - first ≤ window.asSecs

instance decidableCovered (maxRestarts : ℕ) (window : Duration) (s : Supervised) :
    ∀ call, Decidable (s.Covered maxRestarts window call)
  | .start => isTrue trivial
  | .handleFailure _ time => inferInstanceAs (Decidable (s.supervisor.restartCount = maxRestarts →
      ∀ last ∈ s.supervisor.lastRestart, ∀ first ∈ s.counted.head?,
        window.asSecs < time - last ∨ time - first ≤ window.asSecs))

/-! ## What the count stands for -/

/-- The restart count counts the last restarts, and the ones before came more than a window
earlier. -/
structure Counting (maxRestarts : ℕ) (window delay : Duration) (s : Supervised) : Prop where
  strategy : s.supervisor.strategy = .restart maxRestarts window delay
  last : s.supervisor.lastRestart = s.restarts.getLast?
  count_le : s.supervisor.restartCount ≤ maxRestarts
  ordered : (s.restarts ++ [s.clock]).Pairwise (· ≤ ·)
  restarted : s.restarts ≠ [] → 0 < s.supervisor.restartCount
  apart : ∃ earlier counted, s.restarts = earlier ++ counted ∧
    counted.length = s.supervisor.restartCount ∧
    ∀ e ∈ earlier, ∀ c ∈ counted, window.asSecs < c - e

variable {maxRestarts : ℕ} {window delay : Duration} {s : Supervised} {errorType : String}
  {time : ℕ}

theorem counting_new (own : SupervisionStrategy) : Counting maxRestarts window delay
    (new own (some (.restart maxRestarts window delay))) where
  strategy := rfl
  last := rfl
  count_le := Nat.zero_le _
  ordered := List.pairwise_singleton _ _
  restarted h := absurd rfl h
  apart := ⟨[], [], rfl, rfl, by simp⟩

theorem Counting.start (h : Counting maxRestarts window delay s) :
    Counting maxRestarts window delay (s.step .start) :=
  ⟨h.strategy, h.last, h.count_le, h.ordered, h.restarted, h.apart⟩

theorem Counting.le_clock (h : Counting maxRestarts window delay s) :
    ∀ restart ∈ s.restarts, restart ≤ s.clock := fun restart hrestart =>
  (List.pairwise_append.mp h.ordered).2.2 restart hrestart s.clock (List.mem_singleton_self _)

theorem Counting.secondsSince_last (h : Counting maxRestarts window delay s)
    (htime : s.clock ≤ time) {last : ℕ} (hlast : last ∈ s.supervisor.lastRestart) :
    DistributedSupervisor.secondsSince last time = time - last := by
  rw [h.last] at hlast
  exact DistributedSupervisor.secondsSince_of_le
    ((h.le_clock last (List.mem_of_getLast? hlast)).trans htime)

theorem Counting.le_last (h : Counting maxRestarts window delay s) {last : ℕ}
    (hlast : last ∈ s.supervisor.lastRestart) : ∀ restart ∈ s.restarts, restart ≤ last := by
  intro restart hrestart
  rw [h.last] at hlast
  obtain ⟨earlier, hsplit⟩ := List.getLast?_eq_some_iff.mp hlast
  have hordered := (List.pairwise_append.mp h.ordered).1
  rw [hsplit] at hordered hrestart
  rcases List.mem_append.mp hrestart with hrestart | hrestart
  · exact (List.pairwise_append.mp hordered).2.2 restart hrestart last (List.mem_singleton_self _)
  · exact (List.mem_singleton.mp hrestart).le

/-- After the reset the restarts that are not counted are outside the window. -/
theorem Counting.reset (h : Counting maxRestarts window delay s) (htime : s.clock ≤ time) :
    ∃ earlier counted, s.restarts = earlier ++ counted ∧
      counted.length = (s.supervisor.resetCount window time).restartCount ∧
      ∀ e ∈ earlier, ∀ c ∈ counted ++ [time], window.asSecs < c - e := by
  rcases s.supervisor.resetCount_cases window time with ⟨hzero, last, hlast, hgap⟩ | ⟨hsame, -⟩
  · refine ⟨s.restarts, [], (List.append_nil _).symm, hzero.symm, fun e he c hc => ?_⟩
    have hle := h.le_last hlast e he
    rw [h.secondsSince_last htime hlast] at hgap
    rw [List.nil_append, List.mem_singleton] at hc
    omega
  · obtain ⟨earlier, counted, hsplit, hlength, hapart⟩ := h.apart
    refine ⟨earlier, counted, hsplit, by rw [hlength, hsame], fun e he c hc => ?_⟩
    rcases List.mem_append.mp hc with hc | hc
    · exact hapart e he c hc
    · have hne : s.restarts ≠ [] := by
        rw [hsplit]
        exact List.append_ne_nil_of_left_ne_nil (List.ne_nil_of_mem he) _
      obtain ⟨first, hfirst⟩ := List.exists_mem_of_length_pos (hlength ▸ h.restarted hne)
      have hgap := hapart e he first hfirst
      have hle := h.le_clock first (hsplit ▸ List.mem_append_right _ hfirst)
      rw [List.mem_singleton.mp hc]
      omega

/-! ### One failure -/

theorem Counting.handleFailure_eq (h : Counting maxRestarts window delay s) :
    s.supervisor.handleFailure errorType time =
      if maxRestarts ≤ (s.supervisor.resetCount window time).restartCount then
        (s.supervisor.resetCount window time, none)
      else
        (({ s.supervisor.resetCount window time with
            restartCount := (s.supervisor.resetCount window time).restartCount + 1
            lastRestart := some time }).start, some s.supervisor.started) := by
  rw [DistributedSupervisor.handleFailure, h.strategy, DistributedSupervisor.applyStrategy]
  simp only [DistributedSupervisor.start, DistributedSupervisor.resetCount_started]

theorem Counting.step_refused (h : Counting maxRestarts window delay s)
    (hmax : maxRestarts ≤ (s.supervisor.resetCount window time).restartCount) :
    s.step (.handleFailure errorType time) =
      ⟨s.supervisor.resetCount window time, s.restarts, time⟩ := by
  simp only [step, h.handleFailure_eq, if_pos hmax, DistributedSupervisor.resetCount_started,
    lt_irrefl, if_false]

theorem Counting.step_restarted (h : Counting maxRestarts window delay s)
    (hmax : ¬ maxRestarts ≤ (s.supervisor.resetCount window time).restartCount) :
    s.step (.handleFailure errorType time) =
      ⟨({ s.supervisor.resetCount window time with
          restartCount := (s.supervisor.resetCount window time).restartCount + 1
          lastRestart := some time }).start, s.restarts ++ [time], time⟩ := by
  simp only [step, h.handleFailure_eq, if_neg hmax, DistributedSupervisor.start,
    DistributedSupervisor.resetCount_started, Nat.lt_succ_self, if_true]

theorem Counting.ordered_step (h : Counting maxRestarts window delay s) (htime : s.clock ≤ time) :
    (s.restarts ++ [time]).Pairwise (· ≤ ·) := by
  refine List.pairwise_append.mpr ⟨(List.pairwise_append.mp h.ordered).1,
    List.pairwise_singleton _ _, fun restart hrestart t ht => ?_⟩
  rw [List.mem_singleton.mp ht]
  exact (h.le_clock restart hrestart).trans htime

theorem Counting.handleFailure (h : Counting maxRestarts window delay s)
    (htime : s.clock ≤ time) :
    Counting maxRestarts window delay (s.step (.handleFailure errorType time)) := by
  have hordered := h.ordered_step htime
  obtain ⟨earlier, counted, hsplit, hlength, hapart⟩ := h.reset htime
  by_cases hmax : maxRestarts ≤ (s.supervisor.resetCount window time).restartCount
  · have hcount : (s.supervisor.resetCount window time).restartCount ≤ maxRestarts ∧
        (s.restarts ≠ [] → 0 < (s.supervisor.resetCount window time).restartCount) := by
      rcases s.supervisor.resetCount_cases window time with ⟨hzero, -⟩ | ⟨hsame, -⟩
      · refine ⟨by omega, fun hne => ?_⟩
        have hpos := h.restarted hne
        have hle := h.count_le
        omega
      · rw [hsame]
        exact ⟨h.count_le, h.restarted⟩
    rw [h.step_refused hmax]
    refine ⟨?_, ?_, hcount.1, hordered, hcount.2, earlier, counted, hsplit, hlength, ?_⟩
    · rw [DistributedSupervisor.resetCount_strategy, h.strategy]
    · rw [DistributedSupervisor.resetCount_lastRestart, h.last]
    · exact fun e he c hc => hapart e he c (List.mem_append_left _ hc)
  · rw [h.step_restarted hmax]
    refine ⟨?_, ?_, ?_, ?_, fun _ => Nat.succ_pos _, earlier, counted ++ [time], ?_, ?_, hapart⟩
    · exact (s.supervisor.resetCount_strategy window time).trans h.strategy
    · exact List.getLast?_concat.symm
    · exact Nat.lt_of_not_le hmax
    · refine List.pairwise_append.mpr ⟨hordered, List.pairwise_singleton _ _, fun r hr t ht => ?_⟩
      rw [List.mem_singleton.mp ht]
      rcases List.mem_append.mp hr with hr | hr
      · exact (h.le_clock r hr).trans htime
      · exact (List.mem_singleton.mp hr).le
    · rw [hsplit, List.append_assoc]
    · rw [List.length_append, hlength]
      rfl

/-! ### The window -/

/-- Whole seconds are within a window if they are within its whole seconds. -/
theorem within_iff (restart : ℕ) :
    (time - restart) * 1000000000 ≤ window ↔ time - restart ≤ window.asSecs := by
  rw [Duration.asSecs, Nat.le_div_iff_mul_le (by decide)]

theorem recent_eq {earlier counted : List ℕ} (hsplit : s.restarts = earlier ++ counted)
    (hapart : ∀ e ∈ earlier, window.asSecs < time - e) : s.recent window time =
      counted.countP fun restart => decide (time - restart ≤ window.asSecs) := by
  have hearlier : (earlier.countP fun restart => decide (time - restart ≤ window.asSecs)) = 0 := by
    refine List.countP_eq_zero.mpr fun e he => ?_
    have hgap := hapart e he
    rw [decide_eq_true_iff]
    omega
  simp only [recent, within_iff, hsplit, List.countP_append, hearlier, Nat.zero_add]

/-- Only counted restarts are in the window. -/
theorem Counting.recent_counted (h : Counting maxRestarts window delay s)
    (htime : s.clock ≤ time) : ∃ earlier counted, s.restarts = earlier ++ counted ∧
      counted.length = (s.supervisor.resetCount window time).restartCount ∧
      s.recent window time =
        counted.countP fun restart => decide (time - restart ≤ window.asSecs) := by
  obtain ⟨earlier, counted, hsplit, hlength, hapart⟩ := h.reset htime
  have hearlier : ∀ e ∈ earlier, window.asSecs < time - e := fun e he =>
    hapart e he time (List.mem_append_right _ (List.mem_singleton_self _))
  exact ⟨earlier, counted, hsplit, hlength, recent_eq hsplit hearlier⟩

theorem Counting.recent_le (h : Counting maxRestarts window delay s) (htime : s.clock ≤ time) :
    s.recent window time ≤ (s.supervisor.resetCount window time).restartCount := by
  obtain ⟨earlier, counted, -, hlength, hrecent⟩ := h.recent_counted htime
  rw [hrecent, ← hlength]
  exact List.countP_le_length

/-- The supervisor restarts only what the budget allows; what is left to ask of it is that it
refuses nothing else. -/
theorem Counting.budgeted_iff (h : Counting maxRestarts window delay s)
    (htime : s.clock ≤ time) : s.Budgeted maxRestarts window (.handleFailure errorType time) ↔
      (maxRestarts ≤ (s.supervisor.resetCount window time).restartCount →
        maxRestarts ≤ s.recent window time) := by
  have hle := h.recent_le htime
  rw [Budgeted, h.handleFailure_eq]
  by_cases hmax : maxRestarts ≤ (s.supervisor.resetCount window time).restartCount
  · rw [if_pos hmax]
    simp [hmax]
  · have hlt : s.recent window time < maxRestarts := by omega
    rw [if_neg hmax]
    simp [hmax, hlt, DistributedSupervisor.start]

theorem Counting.counted_ordered (h : Counting maxRestarts window delay s)
    {earlier counted : List ℕ} (hsplit : s.restarts = earlier ++ counted) {first : ℕ}
    (hfirst : first ∈ counted.head?) : ∀ restart ∈ counted, first ≤ restart := by
  intro restart hrestart
  obtain ⟨rest, rfl⟩ := List.head?_eq_some_iff.mp hfirst
  have hordered := (List.pairwise_append.mp h.ordered).1
  rw [hsplit] at hordered
  rcases List.mem_cons.mp hrestart with rfl | hrestart
  · exact le_rfl
  · exact List.rel_of_pairwise_cons (List.pairwise_append.mp hordered).2.1 hrestart

theorem Counting.covered_iff (h : Counting maxRestarts window delay s) (htime : s.clock ≤ time) :
    s.Budgeted maxRestarts window (.handleFailure errorType time) ↔
      s.Covered maxRestarts window (.handleFailure errorType time) := by
  rw [h.budgeted_iff htime, Covered]
  obtain ⟨earlier, counted, hsplit, hlength, hrecent⟩ := h.recent_counted htime
  have hle := h.count_le
  rcases s.supervisor.resetCount_cases window time with ⟨hzero, last, hlast, hgap⟩ | ⟨hsame, hgap⟩
  · refine iff_of_true (fun hmax => by omega) fun _ last' hlast' _ _ => Or.inl ?_
    rwa [Option.mem_unique hlast' hlast, ← h.secondsSince_last htime hlast]
  · have hcounted : s.counted = counted := by
      rw [Supervised.counted, hsplit, ← hsame, ← hlength, List.length_append, Nat.add_sub_cancel,
        List.drop_left]
    rw [hsame] at hlength ⊢
    rw [hcounted, hrecent]
    constructor
    · intro hbudget hused last hlast first hfirst
      have hall := hbudget hused.ge
      rw [← hused, ← hlength] at hall
      have hwithin := List.countP_eq_length.mp (le_antisymm List.countP_le_length hall)
      exact Or.inr (of_decide_eq_true (hwithin first (List.mem_of_mem_head? hfirst)))
    · intro hcovered hmax
      have hused : s.supervisor.restartCount = maxRestarts := le_antisymm hle hmax
      rw [← hused, ← hlength, List.countP_eq_length.mpr]
      intro restart hrestart
      have hne : s.restarts ≠ [] := by
        rw [hsplit]
        exact List.append_ne_nil_of_right_ne_nil _ (List.ne_nil_of_mem hrestart)
      have hlast := h.last.trans (List.getLast?_eq_some_getLast hne)
      have hfirst := List.head?_eq_some_head (List.ne_nil_of_mem hrestart)
      have hfirst_le := h.counted_ordered hsplit hfirst restart hrestart
      rcases hcovered hused _ hlast _ hfirst with hlate | hwithin
      · rw [← h.secondsSince_last htime hlast] at hlate
        exact absurd (hgap _ hlast) (Nat.not_le.mpr hlate)
      · rw [decide_eq_true_iff]
        omega

/-! ## Sequences of calls -/

/-- The clock does not run backwards. -/
def InOrder (s : Supervised) : SupervisorCall → Prop
  | .start => True
  | .handleFailure _ time => s.clock ≤ time

theorem inOrder_of_isChain {calls : List SupervisorCall}
    (h : (s.clock :: calls.filterMap SupervisorCall.time?).IsChain (· ≤ ·)) :
    Admissible step InOrder s calls := by
  induction calls generalizing s with
  | nil => trivial
  | cons call calls ih =>
      cases call with
      | start => exact ⟨trivial, ih h⟩
      | handleFailure errorType time =>
          obtain ⟨hle, hrest⟩ := List.isChain_cons_cons.mp h
          exact ⟨hle, ih hrest⟩

theorem Counting.step {call : SupervisorCall} (h : Counting maxRestarts window delay s)
    (hcall : s.InOrder call) : Counting maxRestarts window delay (s.step call) := by
  cases call with
  | start => exact h.start
  | handleFailure errorType time => exact h.handleFailure hcall

theorem Counting.inOrder_congr {call : SupervisorCall} (h : Counting maxRestarts window delay s) :
    (s.InOrder call ∧ s.Budgeted maxRestarts window call) ↔
      (s.InOrder call ∧ s.Covered maxRestarts window call) := by
  cases call with
  | start => exact Iff.rfl
  | handleFailure errorType time => exact and_congr_right fun htime => h.covered_iff htime

/-- A new supervisor with a restart strategy restarts at every failure what the budget allows and
nothing else, exactly when every failure that finds the budget used up is covered by it. -/
theorem budgeted_iff_covered (own : SupervisionStrategy) (maxRestarts : ℕ)
    (window delay : Duration) (calls : List SupervisorCall)
    (h : (calls.filterMap SupervisorCall.time?).IsChain (· ≤ ·)) :
    Admissible step (Budgeted maxRestarts window)
        (new own (some (.restart maxRestarts window delay))) calls ↔
      Admissible step (Covered maxRestarts window)
        (new own (some (.restart maxRestarts window delay))) calls := by
  have hclock : (0 :: calls.filterMap SupervisorCall.time?).IsChain (· ≤ ·) :=
    List.isChain_cons.mpr ⟨fun time _ => Nat.zero_le time, h⟩
  have horder : Admissible step InOrder
      (new own (some (.restart maxRestarts window delay))) calls := inOrder_of_isChain hclock
  have hstep : ∀ (s : Supervised) (call : SupervisorCall), Counting maxRestarts window delay s →
      True → s.InOrder call ∧ s.Budgeted maxRestarts window call →
      Counting maxRestarts window delay (s.step call) := fun s call hs _ hok => hs.step hok.1
  have hiff : ∀ (s : Supervised) (call : SupervisorCall), Counting maxRestarts window delay s →
      True → ((s.InOrder call ∧ s.Budgeted maxRestarts window call) ↔
        (s.InOrder call ∧ s.Covered maxRestarts window call)) :=
    fun s call hs _ => hs.inOrder_congr
  have hall : ∀ call ∈ calls, True := fun _ _ => trivial
  have hcongr := admissible_congr hstep hiff (counting_new own) hall
  rwa [admissible_and, admissible_and, and_congr_right_iff, forall_prop_of_true horder] at hcongr

/-- The name of the type of every error that reaches the supervisor. -/
def errorTypeName : String := "&dyn core::error::Error"

def failure (time : ℕ) : SupervisorCall := .handleFailure errorTypeName time

theorem budgeted_iff_covered_third : Admissible step (Budgeted 2 10000000000)
    (new .default (some (.restart 2 10000000000 0))) [.start, failure 0, failure 8, failure 9] := by
  refine (budgeted_iff_covered .default 2 10000000000 0 _ ?_).mpr ?_
  · decide
  · decide +kernel

/-- Two restarts are allowed in ten seconds. The third failure comes sixteen seconds after the first
restart and finds both restarts counted. -/
theorem not_budgeted :
    let s := run step (new .default (some (.restart 2 10000000000 0))) [failure 0, failure 8]
    s.recent 10000000000 16 = 1 ∧ (s.supervisor.handleFailure errorTypeName 16).2 = none := by
  decide +kernel

end Supervised

end ActixPura.Supervision
