import Mathlib

/-!
# Runs of step functions and fuelled loops

A system is a step function on states together with an admissibility condition on the
actions offered at each state. `run` performs a list of actions, and `Admissible` asks every
action of the list to be admitted at the state where it is performed. Because the list is
arbitrary, a property of the final state of every admissible run is a property of every state
reached along it.

`loop body fuel` models a source `while` loop: `body` answers `none` when the loop is left. The
fuel is only a bound on the number of rounds, and `loop_halts` shows when it was large enough.

`Simulates` relates two systems. An action of the lower system is seen above as the event it is
mapped to, or it is hidden. Where the relation of the states is kept by every admitted action, a run
of the lower system is a run of the upper one over the visible events.
-/

namespace ActixPura.Runs

section Actions

variable {σ α : Type*} (step : σ → α → σ) (ok : σ → α → Prop)

def run (s : σ) (as : List α) : σ := as.foldl step s

def Admissible : σ → List α → Prop
  | _, [] => True
  | s, a :: as => ok s a ∧ Admissible (step s a) as

instance decidableAdmissible [h : ∀ s a, Decidable (ok s a)] :
    ∀ s as, Decidable (Admissible step ok s as)
  | _, [] => isTrue trivial
  | s, a :: as => @instDecidableAnd _ _ (h s a) (decidableAdmissible (step s a) as)

@[simp] theorem run_nil (s : σ) : run step s [] = s := rfl

@[simp] theorem run_cons (s : σ) (a : α) (as : List α) :
    run step s (a :: as) = run step (step s a) as := rfl

theorem run_append (s : σ) (as bs : List α) :
    run step s (as ++ bs) = run step (run step s as) bs := by
  simp [run, List.foldl_append]

variable {step ok}

theorem admissible_append {s : σ} {as bs : List α} :
    Admissible step ok s (as ++ bs) ↔
      Admissible step ok s as ∧ Admissible step ok (run step s as) bs := by
  induction as generalizing s with
  | nil => simp [Admissible]
  | cons a as ih => simp only [List.cons_append, Admissible, ih, run_cons, and_assoc]

theorem admissible_iff_forall {s : σ} {as : List α} : Admissible step ok s as ↔
    ∀ before a after, as = before ++ a :: after → ok (run step s before) a := by
  constructor
  · rintro h before a after rfl
    exact (admissible_append.mp h).2.1
  · intro h
    induction as generalizing s with
    | nil => trivial
    | cons a as ih =>
        refine ⟨h [] a as rfl, ih fun before b after heq => ?_⟩
        exact h (a :: before) b after (by rw [heq, List.cons_append])

theorem admissible_mono {ok' : σ → α → Prop} (hok : ∀ s a, ok s a → ok' s a) {s : σ}
    {as : List α} (h : Admissible step ok s as) : Admissible step ok' s as := by
  induction as generalizing s with
  | nil => trivial
  | cons a as ih => exact ⟨hok s a h.1, ih h.2⟩

theorem admissible_and {ok' : σ → α → Prop} {s : σ} {as : List α} :
    Admissible step (fun s a => ok s a ∧ ok' s a) s as ↔
      Admissible step ok s as ∧ Admissible step ok' s as := by
  induction as generalizing s with
  | nil => simp [Admissible]
  | cons a as ih =>
      simp only [Admissible, ih]
      tauto

/-- The invariant rule for runs: what every admitted step preserves holds of every state
reached by an admissible run. -/
theorem invariant_run {I : σ → Prop} (hstep : ∀ s a, I s → ok s a → I (step s a))
    {s : σ} {as : List α} (hs : I s) (h : Admissible step ok s as) : I (run step s as) := by
  induction as generalizing s with
  | nil => exact hs
  | cons a as ih => exact ih (hstep s a hs h.1) h.2

/-- A property that every action of a run preserves is a property of its final state. -/
theorem invariant_run_of_mem {I : σ → Prop} {as : List α}
    (hstep : ∀ s, ∀ a ∈ as, I s → I (step s a)) {s : σ} (hs : I s) : I (run step s as) :=
  List.foldlRecOn as step hs fun s h a ha => hstep s a ha h

/-- Where a condition on the steps says exactly when a property is kept, a run admitted by it is a
run in which the property holds all along. -/
theorem admissible_iff_forall_run {I : σ → Prop} (hiff : ∀ s a, I s → (ok s a ↔ I (step s a)))
    {s : σ} {as : List α} (hs : I s) :
    Admissible step ok s as ↔ ∀ before after, as = before ++ after → I (run step s before) := by
  constructor
  · rintro h before after rfl
    exact invariant_run (fun s a hI hok => (hiff s a hI).mp hok) hs (admissible_append.mp h).1
  · intro h
    refine admissible_iff_forall.mpr fun before a after heq => ?_
    have hnext := h (before ++ [a]) after (by simp [heq])
    rw [run_append] at hnext
    exact (hiff _ a (h before (a :: after) heq)).mpr hnext

/-- Two conditions that agree on the offered actions at every state of an invariant admit the same
runs. -/
theorem admissible_congr {ok' : σ → α → Prop} {I : σ → Prop} {P : α → Prop}
    (hstep : ∀ s a, I s → P a → ok s a → I (step s a))
    (hiff : ∀ s a, I s → P a → (ok s a ↔ ok' s a)) {s : σ} {as : List α} (hs : I s)
    (hP : ∀ a ∈ as, P a) : Admissible step ok s as ↔ Admissible step ok' s as := by
  induction as generalizing s with
  | nil => exact Iff.rfl
  | cons a as ih =>
      have ha := hP a List.mem_cons_self
      have hrest := fun h => ih (hstep s a hs ha h) fun b hb => hP b (List.mem_cons_of_mem _ hb)
      constructor
      · intro h
        exact ⟨(hiff s a hs ha).mp h.1, (hrest h.1).mp h.2⟩
      · intro h
        have hok := (hiff s a hs ha).mpr h.1
        exact ⟨hok, (hrest hok).mpr h.2⟩

end Actions

/-- An entry of a history that was extended by one is the new entry or an entry of the old one. -/
theorem split_snoc {α : Type*} {es l l' : List α} {x e : α} (h : es ++ [x] = l ++ e :: l') :
    (es = l ∧ x = e) ∨ ∃ l'', es = l ++ e :: l'' := by
  rcases List.eq_nil_or_concat l' with rfl | ⟨l'', y, rfl⟩
  · obtain ⟨hes, hxe⟩ := List.append_inj' h rfl
    exact Or.inl ⟨hes, List.singleton_inj.mp hxe⟩
  · rw [List.concat_eq_append, ← List.cons_append, ← List.append_assoc] at h
    exact Or.inr ⟨l'', (List.append_inj' h rfl).1⟩

section Histories

variable {α : Type*} {es xs : List α}

/-- An entry of a history that was extended is an entry of the old one or one of the new entries. -/
theorem split_append {l l' : List α} {e : α} (h : es ++ xs = l ++ e :: l') :
    (∃ l'', es = l ++ e :: l'') ∨ ∃ l'', l = es ++ l'' ∧ xs = l'' ++ e :: l' := by
  rcases List.append_eq_append_iff.mp h with ⟨l'', hl, hxs⟩ | ⟨l'', hes, hrest⟩
  · exact Or.inr ⟨l'', hl, hxs⟩
  · cases l'' with
    | nil => exact Or.inr ⟨[], by simpa using hes.symm, by simpa using hrest.symm⟩
    | cons x l'' =>
        obtain ⟨rfl, -⟩ := List.cons.inj hrest
        exact Or.inl ⟨l'', hes⟩

/-- Every entry is related to what stands before it. -/
def Preceded (Q : List α → α → Prop) (es : List α) : Prop :=
  ∀ before e after, es = before ++ e :: after → Q before e

theorem preceded_nil {Q : List α → α → Prop} : Preceded Q [] := by
  intro before e after h
  simp at h

theorem preceded_append {Q : List α → α → Prop} : Preceded Q (es ++ xs) ↔
    Preceded Q es ∧ Preceded (fun before => Q (es ++ before)) xs := by
  constructor
  · intro h
    refine ⟨fun before e after hes => h before e (after ++ xs) (by simp [hes]), ?_⟩
    intro before e after hxs
    exact h (es ++ before) e after (by simp [hxs])
  · rintro ⟨hold, hnew⟩ before e after h
    rcases split_append h with ⟨after', hes⟩ | ⟨between, rfl, hxs⟩
    · exact hold before e after' hes
    · exact hnew between e after hxs

/-- What is true of an entry after some history is enough when it stays true after more of it. -/
theorem Preceded.append {Q : List α → α → Prop} (hmono : ∀ l l' e, Q l e → Q (l ++ l') e)
    (h : Preceded Q es) (hnew : ∀ e ∈ xs, Q es e) : Preceded Q (es ++ xs) := by
  refine preceded_append.mpr ⟨h, fun before e after hxs => hmono es before e (hnew e ?_)⟩
  rw [hxs]
  exact List.mem_append_right _ List.mem_cons_self

theorem Preceded.of_mem {Q : List α → α → Prop} (hmono : ∀ l l' e, Q l e → Q (l ++ l') e)
    (h : Preceded Q es) {e : α} (he : e ∈ es) : Q es e := by
  obtain ⟨before, after, rfl⟩ := List.append_of_mem he
  exact hmono before _ e (h before e after rfl)

theorem eq_of_countP_le_one {p : α → Bool} (h : es.countP p ≤ 1) {x y : α} (hx : x ∈ es)
    (hy : y ∈ es) (hpx : p x = true) (hpy : p y = true) : x = y := by
  rw [List.countP_eq_length_filter] at h
  have hxs := List.mem_filter.mpr ⟨hx, hpx⟩
  have hys := List.mem_filter.mpr ⟨hy, hpy⟩
  match hlist : es.filter p with
  | [] => simp [hlist] at hxs
  | [z] =>
      rw [hlist, List.mem_singleton] at hxs hys
      rw [hxs, hys]
  | _ :: _ :: _ => simp [hlist] at h

end Histories

section Loops

variable {σ : Type*} (body : σ → Option σ)

def loop : ℕ → σ → σ
  | 0, s => s
  | fuel + 1, s =>
    match body s with
    | none => s
    | some s' => loop fuel s'

variable {body}

theorem loop_succ_of_none {fuel : ℕ} {s : σ} (h : body s = none) :
    loop body fuel s = s := by
  cases fuel with
  | zero => rfl
  | succ fuel => simp only [loop, h]

theorem loop_succ_of_some {fuel : ℕ} {s s' : σ} (h : body s = some s') :
    loop body (fuel + 1) s = loop body fuel s' := by
  simp only [loop, h]

theorem loop_invariant {I : σ → Prop} (hbody : ∀ s s', I s → body s = some s' → I s')
    (fuel : ℕ) {s : σ} (hs : I s) : I (loop body fuel s) := by
  induction fuel generalizing s with
  | zero => exact hs
  | succ fuel ih =>
      cases hb : body s with
      | none => simpa only [loop, hb] using hs
      | some s' => simpa only [loop, hb] using ih (hbody s s' hs hb)

/-- A loop whose rounds decrease a measure has been left once the fuel exceeds the measure. -/
theorem loop_halts {I : σ → Prop} (hbody : ∀ s s', I s → body s = some s' → I s')
    (μ : σ → ℕ) (hμ : ∀ s s', I s → body s = some s' → μ s' < μ s)
    {fuel : ℕ} {s : σ} (hs : I s) (hfuel : μ s < fuel) : body (loop body fuel s) = none := by
  induction fuel generalizing s with
  | zero => omega
  | succ fuel ih =>
      cases hb : body s with
      | none => simp only [loop, hb]
      | some s' =>
          have hlt := hμ s s' hs hb
          simpa only [loop, hb] using ih (hbody s s' hs hb) (by omega)

/-- Fuel beyond the point where the loop was left changes nothing. -/
theorem loop_eq_of_halted {fuel fuel' : ℕ} {s : σ} (h : body (loop body fuel s) = none)
    (hle : fuel ≤ fuel') : loop body fuel' s = loop body fuel s := by
  induction fuel generalizing s fuel' with
  | zero => exact loop_succ_of_none h
  | succ fuel ih =>
      obtain ⟨k, rfl⟩ := Nat.exists_eq_add_of_le' hle
      cases hb : body s with
      | none => rw [loop_succ_of_none hb, loop_succ_of_none hb]
      | some s' =>
          rw [loop_succ_of_some hb] at h
          change loop body ((k + fuel) + 1) s = _
          rw [loop_succ_of_some hb, loop_succ_of_some hb]
          exact ih h (by omega)

theorem loop_snoc (fuel : ℕ) (s : σ) :
    loop body (fuel + 1) s = (body (loop body fuel s)).getD (loop body fuel s) := by
  induction fuel generalizing s with
  | zero => cases hb : body s <;> simp [loop, hb]
  | succ fuel ih =>
      cases hb : body s with
      | none => simp only [loop_succ_of_none hb, hb, Option.getD_none]
      | some s' =>
          rw [loop_succ_of_some hb, loop_succ_of_some hb]
          exact ih s'

/-- The loop with this body, whose state is `after n` when `n` rounds have been made, is left once
the rounds outnumber the initial size, and a round lowers the size when the test to go on holds at
its end. -/
structure Ends (body : σ → Option σ) (goesOn : σ → Prop) (size : σ → ℕ) (after : ℕ → σ) :
    Prop where
  round : ∀ n, after (n + 1) = (body (after n)).getD (after n)
  lowers : ∀ n s', body (after n) = some s' → goesOn s' → size s' < size (after n)
  left : ∀ n, size (after 0) < n → body (after n) = none

end Loops

section Simulation

variable {σ α σ' α' : Type*} (step : σ → α → σ) (ok : σ → α → Prop) (step' : σ' → α' → σ')
  (ok' : σ' → α' → Prop)

structure Simulates (R : σ → σ' → Prop) (event : α → Option α') : Prop where
  admitted : ∀ s s' a b, R s s' → ok s a → event a = some b → ok' s' b
  matched : ∀ s s' a b, R s s' → ok s a → event a = some b → R (step s a) (step' s' b)
  hidden : ∀ s s' a, R s s' → ok s a → event a = none → R (step s a) s'

variable {step ok step' ok'} {R : σ → σ' → Prop} {event : α → Option α'}

theorem Simulates.run (h : Simulates step ok step' ok' R event) {s : σ} {s' : σ'} {as : List α}
    (hR : R s s') (has : Admissible step ok s as) :
    R (run step s as) (run step' s' (as.filterMap event)) ∧
      Admissible step' ok' s' (as.filterMap event) := by
  induction as generalizing s s' with
  | nil => exact ⟨hR, trivial⟩
  | cons a as ih =>
      cases hevent : event a with
      | none =>
          rw [List.filterMap_cons_none hevent]
          exact ih (h.hidden s s' a hR has.1 hevent) has.2
      | some b =>
          rw [List.filterMap_cons_some hevent]
          obtain ⟨hrun, hadmitted⟩ := ih (h.matched s s' a b hR has.1 hevent) has.2
          exact ⟨hrun, h.admitted s s' a b hR has.1 hevent, hadmitted⟩

end Simulation

end ActixPura.Runs
