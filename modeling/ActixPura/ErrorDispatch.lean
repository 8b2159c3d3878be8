import ActixPura.RestartBudget

/-!
# Supervision by the type of an error

`supervision.rs` of the cluster. A match strategy hands a failure to the strategy of the first
matcher for the type of the error, or to its default strategy. That strategy runs on a temporary
supervisor, whose state is taken over only if it returns an address.

While no matcher is for an error, a match strategy does what the innermost of its default strategies
does: the only state that is not taken over is a restart count that was reset although no restart is
allowed, and that count was zero before. The type of an error is recorded by its name, and the name
is that of the static type of the reference that the failure is recorded from.
-/

namespace ActixPura.Supervision

namespace SupervisionStrategy

/-- Not a match strategy. -/
def Direct : SupervisionStrategy → Prop
  | .matching _ _ => False
  | _ => True

/-- The strategy that the default strategies lead to. -/
def fallback : SupervisionStrategy → SupervisionStrategy
  | .matching default _ => default.fallback
  | strategy => strategy

/-- No matcher is for the error type, neither here nor among the matchers of the default strategies.
-/
def Unmatched (errorType : String) : SupervisionStrategy → Prop
  | .matching default matchers =>
    (∀ matcher ∈ matchers, matcher.1 ≠ errorType) ∧ default.Unmatched errorType
  | _ => True

instance decidableUnmatched (errorType : String) :
    ∀ strategy, Decidable (Unmatched errorType strategy)
  | .restart _ _ _ => isTrue trivial
  | .stop => isTrue trivial
  | .escalate => isTrue trivial
  | .relocate _ _ => isTrue trivial
  | .resume => isTrue trivial
  | .matching default matchers =>
    @instDecidableAnd _ _
      (inferInstanceAs (Decidable (∀ matcher ∈ matchers, matcher.1 ≠ errorType)))
      (decidableUnmatched errorType default)

/-- Induction along the default strategies. -/
theorem default_induction {motive : SupervisionStrategy → Prop}
    (direct : ∀ strategy, strategy.Direct → motive strategy)
    (matching : ∀ default matchers, motive default → motive (.matching default matchers)) :
    ∀ strategy, motive strategy
  | .restart _ _ _ => direct _ trivial
  | .stop => direct _ trivial
  | .escalate => direct _ trivial
  | .relocate _ _ => direct _ trivial
  | .resume => direct _ trivial
  | .matching default matchers =>
    matching default matchers (default_induction direct matching default)

theorem fallback_of_direct {strategy : SupervisionStrategy} (h : strategy.Direct) :
    strategy.fallback = strategy := by
  cases strategy with
  | matching default matchers => exact h.elim
  | _ => rfl

theorem direct_fallback (strategy : SupervisionStrategy) : strategy.fallback.Direct := by
  induction strategy using default_induction with
  | direct strategy h => rwa [fallback_of_direct h]
  | matching default matchers ih => exact ih

end SupervisionStrategy

theorem matchedStrategy_of_unmatched {default : SupervisionStrategy}
    {matchers : List (String × SupervisionStrategy)} {errorType : String}
    (h : ∀ matcher ∈ matchers, matcher.1 ≠ errorType) :
    matchedStrategy default matchers errorType = default := by
  have hfind : matchers.find? (fun matcher => matcher.1 == errorType) = none :=
    List.find?_eq_none.mpr fun matcher hmatcher => by simpa using h matcher hmatcher
  rw [matchedStrategy, hfind]
  rfl

/-! ## Default strategies -/

namespace DistributedSupervisor

open SupervisionStrategy

variable {s : DistributedSupervisor} {errorType : String} {now : ℕ}
  {strategy : SupervisionStrategy}

/-- The restart count is within what the strategy allows. -/
def Within (s : DistributedSupervisor) : SupervisionStrategy → Prop
  | .restart maxRestarts _ _ => s.restartCount ≤ maxRestarts
  | _ => True

theorem resetCount_eq_self {window : Duration} (hzero : s.restartCount = 0) :
    s.resetCount window now = s := by
  rw [resetCount_eq]
  rcases s.resetCount_cases window now with ⟨hcount, -⟩ | ⟨hcount, -⟩
  · rw [hcount, ← hzero]
  · rw [hcount]

theorem resetCount_of_refused {maxRestarts : ℕ} {window : Duration}
    (hle : s.restartCount ≤ maxRestarts)
    (hmax : maxRestarts ≤ (s.resetCount window now).restartCount) :
    s.resetCount window now = s := by
  rcases s.resetCount_cases window now with ⟨hcount, -⟩ | ⟨hcount, -⟩
  · exact resetCount_eq_self (by omega)
  · rw [resetCount_eq, hcount]

/-- A failure that no address is returned for leaves the state as it was. -/
theorem applyStrategy_of_none (hdirect : strategy.Direct) (hwithin : s.Within strategy)
    (hnone : (s.applyStrategy errorType now strategy).2 = none) :
    (s.applyStrategy errorType now strategy).1 = s := by
  cases strategy with
  | restart maxRestarts window delay =>
      rw [applyStrategy] at hnone ⊢
      by_cases hmax : maxRestarts ≤ (s.resetCount window now).restartCount
      · simpa only [if_pos hmax] using resetCount_of_refused hwithin hmax
      · simp [if_neg hmax, start] at hnone
  | relocate maxRelocations delay =>
      rw [applyStrategy] at hnone ⊢
      by_cases hmax : maxRelocations ≤ s.restartCount
      · rw [if_pos hmax]
      · simp [if_neg hmax, start] at hnone
  | stop | escalate | resume => rw [applyStrategy]
  | matching default matchers => exact hdirect.elim

theorem applyStrategy_unmatched (hunmatched : strategy.Unmatched errorType)
    (hwithin : s.Within strategy.fallback) :
    s.applyStrategy errorType now strategy = s.applyStrategy errorType now strategy.fallback := by
  induction strategy using default_induction with
  | direct strategy h => rw [fallback_of_direct h]
  | matching default matchers ih =>
      have hdefault := ih hunmatched.2 hwithin
      rw [applyStrategy, matchedStrategy_of_unmatched hunmatched.1, hdefault, fallback]
      cases hresult : (s.applyStrategy errorType now default.fallback).2 with
      | none =>
          have hstate := applyStrategy_of_none (direct_fallback default) hwithin hresult
          exact Prod.ext (by simp [hresult, hstate]) rfl
      | some addr => exact Prod.ext (by simp [hresult]) rfl

theorem within_applyStrategy (hdirect : strategy.Direct) (hwithin : s.Within strategy) :
    (s.applyStrategy errorType now strategy).1.Within strategy := by
  cases strategy with
  | restart maxRestarts window delay =>
      rw [applyStrategy]
      by_cases hmax : maxRestarts ≤ (s.resetCount window now).restartCount
      · rwa [if_pos hmax, resetCount_of_refused hwithin hmax]
      · simp only [if_neg hmax]
        exact Nat.lt_of_not_le hmax
  | stop | escalate | relocate | resume => trivial
  | matching default matchers => exact hdirect.elim

theorem resetCount_withStrategy (window : Duration) (held : SupervisionStrategy) :
    { s with strategy := held }.resetCount window now =
      { s.resetCount window now with strategy := held } := by
  obtain ⟨strategy, restartCount, lastRestart, addr, started⟩ := s
  cases lastRestart with
  | none => rfl
  | some last => by_cases hgap : window.asSecs < secondsSince last now <;> simp [resetCount, hgap]

/-- The strategy that a supervisor holds makes no difference to how another one is applied. -/
theorem applyStrategy_withStrategy (hdirect : strategy.Direct) (held : SupervisionStrategy) :
    { s with strategy := held }.applyStrategy errorType now strategy =
      ({ (s.applyStrategy errorType now strategy).1 with strategy := held },
        (s.applyStrategy errorType now strategy).2) := by
  cases strategy with
  | restart maxRestarts window delay =>
      rw [applyStrategy, applyStrategy, resetCount_withStrategy window held]
      by_cases hmax : maxRestarts ≤ (s.resetCount window now).restartCount
      · simp only [if_pos hmax]
      · simp only [if_neg hmax, start]
  | relocate maxRelocations delay =>
      rw [applyStrategy, applyStrategy]
      by_cases hmax : maxRelocations ≤ s.restartCount
      · simp only [if_pos hmax]
      · simp only [if_neg hmax, start]
  | stop | escalate | resume => simp only [applyStrategy]
  | matching default matchers => exact hdirect.elim

theorem applyStrategy_strategy (hdirect : strategy.Direct) :
    (s.applyStrategy errorType now strategy).1.strategy = s.strategy := by
  have h : s.applyStrategy errorType now strategy =
      ({ (s.applyStrategy errorType now strategy).1 with strategy := s.strategy },
        (s.applyStrategy errorType now strategy).2) :=
    applyStrategy_withStrategy hdirect s.strategy
  rw [h]

/-- The result of every failure, with the restart count and the last restart after it. -/
def history (s : DistributedSupervisor) : List (String × ℕ) → List (Option ℕ × ℕ × Option ℕ)
  | [] => []
  | (errorType, now) :: failures =>
    let (s, result) := s.handleFailure errorType now
    (result, s.restartCount, s.lastRestart) :: s.history failures

theorem history_withMatching {matchers : List (String × SupervisionStrategy)}
    {failures : List (String × ℕ)}
    (hunmatched : ∀ failure ∈ failures, (matching s.strategy matchers).Unmatched failure.1)
    (hwithin : s.Within s.strategy.fallback) :
    { s with strategy := .matching s.strategy matchers }.history failures =
      s.history failures := by
  induction failures generalizing s with
  | nil => rfl
  | cons failure failures ih =>
      obtain ⟨errorType, now⟩ := failure
      have hfirst := hunmatched _ List.mem_cons_self
      have hdirect := direct_fallback s.strategy
      have hmatching : { s with strategy := .matching s.strategy matchers }.handleFailure
          errorType now =
            ({ (s.handleFailure errorType now).1 with strategy := .matching s.strategy matchers },
              (s.handleFailure errorType now).2) := by
        rw [handleFailure, handleFailure, applyStrategy_unmatched hfirst.2 hwithin]
        exact (applyStrategy_unmatched (s := { s with strategy := .matching s.strategy matchers })
          hfirst hwithin).trans (applyStrategy_withStrategy hdirect _)
      have hstate : (s.handleFailure errorType now).1.strategy = s.strategy := by
        rw [handleFailure, applyStrategy_unmatched hfirst.2 hwithin]
        exact applyStrategy_strategy hdirect
      have hnext : (s.handleFailure errorType now).1.Within s.strategy.fallback := by
        rw [handleFailure, applyStrategy_unmatched hfirst.2 hwithin]
        exact within_applyStrategy hdirect hwithin
      have hrest := ih (s := (s.handleFailure errorType now).1)
      rw [hstate] at hrest
      have htail := hrest (fun failure h => hunmatched failure (List.mem_cons_of_mem _ h)) hnext
      simp only [history, hmatching, htail]

/-- A match strategy none of whose matchers is for any of the failures is its default strategy. -/
theorem history_matching (strategy : SupervisionStrategy)
    (matchers : List (String × SupervisionStrategy)) (addr : Option ℕ) (started : ℕ)
    (failures : List (String × ℕ))
    (h : ∀ failure ∈ failures, (matching strategy matchers).Unmatched failure.1) :
    history ⟨.matching strategy matchers, 0, none, addr, started⟩ failures =
      history ⟨strategy, 0, none, addr, started⟩ failures := by
  refine history_withMatching (s := ⟨strategy, 0, none, addr, started⟩) h ?_
  cases hfallback : strategy.fallback with
  | restart maxRestarts window delay => exact Nat.zero_le _
  | stop | escalate | relocate | resume | matching => trivial

/-- Two restarts are allowed, and the matchers are for input errors at both levels. -/
theorem history_matching_twice :
    let strategy := matching (.restart 2 10000000000 0) [("std::io::error::Error", .escalate)]
    let failures := [("alloc::string::FromUtf8Error", 5), ("core::fmt::Error", 7),
      ("core::fmt::Error", 8), ("core::fmt::Error", 20)]
    history ⟨.matching strategy [("std::io::error::Error", .stop)], 0, none, none, 0⟩ failures =
        history ⟨strategy, 0, none, none, 0⟩ failures ∧
      history ⟨strategy, 0, none, none, 0⟩ failures =
        [(some 0, 1, some 5), (some 1, 2, some 7), (none, 2, some 7), (some 2, 1, some 20)] :=
  ⟨history_matching _ _ none 0 _ (by decide), by decide +kernel⟩

end DistributedSupervisor

/-! ## The type of an error -/

/-- What is recorded of a failure. -/
structure FailureInfo where
  time : ℕ
  error : String
  errorType : String
  restartCount : ℕ

/-- A boxed error keeps its type and what it prints. -/
structure BoxedError (ErrorType : Type) where
  type : ErrorType
  display : String

section Dispatch

variable {ErrorType : Type} (typeName : ErrorType → String)

/-- The name of the type is that of the static type of the reference to the error. -/
def FailureInfo.new (static : ErrorType) (error : BoxedError ErrorType) (now restartCount : ℕ) :
    FailureInfo :=
  ⟨now, error.display, typeName static, restartCount⟩

variable (refDynError : ErrorType)

namespace DistributedSupervisor

/-- A strategy applied to a boxed error, with the matcher of every match strategy that is applied;
there is none where the default strategy is. -/
def applyToError (s : DistributedSupervisor) (error : BoxedError ErrorType) (now : ℕ) :
    SupervisionStrategy → (DistributedSupervisor × Option ℕ) × List (Option ℕ)
  | .matching default matchers =>
    let failureInfo := FailureInfo.new typeName refDynError error now s.restartCount
    let ((temp, result), choices) := s.applyToError error now
      (matchedStrategy default matchers failureInfo.errorType)
    ((if result.isSome then temp else s, result),
      matchers.findIdx? (fun matcher => matcher.1 == failureInfo.errorType) :: choices)
  | strategy =>
    let failureInfo := FailureInfo.new typeName refDynError error now s.restartCount
    (s.applyStrategy failureInfo.errorType now strategy, [])
  termination_by strategy => sizeOf strategy
  decreasing_by exact sizeOf_matchedStrategy_lt default matchers failureInfo.errorType

/-- `handle_failure` with a boxed error. -/
def handleError (s : DistributedSupervisor) (error : BoxedError ErrorType) (now : ℕ) :
    (DistributedSupervisor × Option ℕ) × List (Option ℕ) :=
  s.applyToError typeName refDynError error now s.strategy

end DistributedSupervisor

/-- The first matcher for the error type, of the strategy and of every strategy it leads to. -/
def SupervisionStrategy.choices (errorType : String) : SupervisionStrategy → List (Option ℕ)
  | .matching default matchers =>
    matchers.findIdx? (fun matcher => matcher.1 == errorType) ::
      choices errorType (matchedStrategy default matchers errorType)
  | _ => []
  termination_by strategy => sizeOf strategy
  decreasing_by exact sizeOf_matchedStrategy_lt default matchers errorType

theorem findIdx?_matchers_eq_none {matchers : List (String × SupervisionStrategy)}
    {errorType : String} : matchers.findIdx? (fun matcher => matcher.1 == errorType) = none ↔
      ∀ matcher ∈ matchers, matcher.1 ≠ errorType := by
  simp [List.findIdx?_eq_none_iff]

/-- A matcher that is first for two error types is for the same type. -/
theorem eq_of_findIdx?_matchers {matchers : List (String × SupervisionStrategy)} {a b : String}
    {i : ℕ} (ha : matchers.findIdx? (fun matcher => matcher.1 == a) = some i)
    (hb : matchers.findIdx? (fun matcher => matcher.1 == b) = some i) : a = b := by
  obtain ⟨_, hfirst, -⟩ := List.findIdx?_eq_some_iff_getElem.mp ha
  obtain ⟨_, hfirst', -⟩ := List.findIdx?_eq_some_iff_getElem.mp hb
  exact (beq_iff_eq.mp hfirst).symm.trans (beq_iff_eq.mp hfirst')

theorem SupervisionStrategy.choices_eq_iff {a b : String} (strategy : SupervisionStrategy) :
    strategy.choices a = strategy.choices b ↔
      a = b ∨ (strategy.Unmatched a ∧ strategy.Unmatched b) := by
  induction strategy using default_induction with
  | direct strategy h =>
      cases strategy with
      | matching default matchers => exact h.elim
      | _ => simp [choices, Unmatched]
  | matching default matchers ih =>
      rw [choices, choices, List.cons.injEq, Unmatched, Unmatched]
      by_cases heq : a = b
      · simp [heq]
      constructor
      · rintro ⟨hhead, htail⟩
        cases ha : matchers.findIdx? (fun matcher => matcher.1 == a) with
        | some i => exact absurd (eq_of_findIdx?_matchers ha (hhead.symm.trans ha)) heq
        | none =>
            have hunmatched := findIdx?_matchers_eq_none.mp ha
            have hunmatched' := findIdx?_matchers_eq_none.mp (hhead.symm.trans ha)
            rw [matchedStrategy_of_unmatched hunmatched,
              matchedStrategy_of_unmatched hunmatched'] at htail
            obtain ⟨hrest, hrest'⟩ := (ih.mp htail).resolve_left heq
            exact Or.inr ⟨⟨hunmatched, hrest⟩, ⟨hunmatched', hrest'⟩⟩
      · intro h
        obtain ⟨⟨hunmatched, hrest⟩, ⟨hunmatched', hrest'⟩⟩ := h.resolve_left heq
        rw [matchedStrategy_of_unmatched hunmatched, matchedStrategy_of_unmatched hunmatched']
        exact ⟨(findIdx?_matchers_eq_none.mpr hunmatched).trans
          (findIdx?_matchers_eq_none.mpr hunmatched').symm, ih.mpr (Or.inr ⟨hrest, hrest'⟩)⟩

namespace DistributedSupervisor

variable (s : DistributedSupervisor) (error : BoxedError ErrorType) (now : ℕ)

/-- Every match strategy records the name of the type anew, from a reference of the same static
type. -/
theorem applyToError_eq (strategy : SupervisionStrategy) :
    s.applyToError typeName refDynError error now strategy =
      (s.applyStrategy (typeName refDynError) now strategy,
        strategy.choices (typeName refDynError)) := by
  induction strategy using SupervisionStrategy.choices.induct (typeName refDynError) with
  | case1 default matchers ih =>
      rw [applyToError, applyStrategy, SupervisionStrategy.choices]
      simp only [FailureInfo.new, ih]
  | case2 strategy h =>
      cases strategy with
      | matching default matchers => exact absurd rfl (h default matchers)
      | _ => simp only [applyToError, SupervisionStrategy.choices, FailureInfo.new]

theorem handleError_eq : s.handleError typeName refDynError error now =
    (s.handleFailure (typeName refDynError) now, s.strategy.choices (typeName refDynError)) :=
  s.applyToError_eq typeName refDynError error now s.strategy

/-- The matchers that are applied are the first ones for the type of the error, and the default
strategies are applied where there is none, exactly if the error has the name of an erased error or
none of the matchers that are asked is for either. -/
theorem handleError_choices_iff :
    (s.handleError typeName refDynError error now).2 = s.strategy.choices (typeName error.type) ↔
      typeName error.type = typeName refDynError ∨
        (s.strategy.Unmatched (typeName error.type) ∧
          s.strategy.Unmatched (typeName refDynError)) := by
  rw [handleError_eq, SupervisionStrategy.choices_eq_iff, eq_comm (a := typeName refDynError),
    and_comm (a := s.strategy.Unmatched (typeName refDynError))]

/-- The types are given by their names. An input error is to stop the actor, and restarts it. -/
theorem handleError_default :
    let s : DistributedSupervisor := ⟨.matching (.restart 10 60000000000 100000000)
      [("std::io::error::Error", .stop)], 0, none, some 0, 1⟩
    let error : BoxedError String := ⟨"std::io::error::Error", "unexpected end of file"⟩
    s.strategy.choices (id error.type) = [some 0] ∧
      (s.handleError id "&dyn core::error::Error" error 7).2 = [none] ∧
      (s.handleError id "&dyn core::error::Error" error 7).1.2 = some 1 := by
  decide +kernel

end DistributedSupervisor

end Dispatch

end ActixPura.Supervision
