import ActixPura.RegistryTasks

/-!
# Lookups after a deregistration

What a lookup answers from the cache was copied from the map of local actors some time before. If no
actor is deregistered while such a copy is on its way to the cache, a cached local actor is still
registered, or its deregistration has not returned. Otherwise the copy is entered after the
deregistration has dropped the entry, and stays.
-/

namespace ActixPura

open Runs

namespace RegistryTask

variable {A : Type*}

/-- The path that a lookup asks for. -/
def lookupPath : RegistryTask A → Option String
  | .called (.lookup path) | .checkCache path | .countMiss path | .readLocal path
  | .writeCache path _ | .searchRemote path | .writeRemote path _ => some path
  | _ => none

end RegistryTask

namespace RegistryTasks

variable {A : Type*} {s : RegistryTasks A} {log events : List (RegistryEvent A)} {path : String}
  {actor : A}

theorem Live.append (h : Live log path actor) (hevents : .deregistered path actor ∉ events) :
    Live (log ++ events) path actor := by
  intro before after hsplit
  rcases split_append hsplit with ⟨rest, hlog⟩ | ⟨between, -, hrest⟩
  · have hin := h before rest hlog
    have hafter : after = rest ++ events := by
      rw [hlog, List.append_assoc] at hsplit
      simpa using hsplit.symm
    rw [hafter]
    exact List.mem_append_left _ hin
  · exact absurd (hrest ▸ List.mem_append_right _ List.mem_cons_self) hevents

theorem live_registered (log : List (RegistryEvent A)) (path : String) (actor : A) :
    Live (log ++ [.registered path actor]) path actor := by
  intro before after hsplit
  rcases split_append hsplit with ⟨rest, hlog⟩ | ⟨between, -, hrest⟩
  · have hafter : after = rest ++ [.registered path actor] := by
      rw [hlog, List.append_assoc] at hsplit
      simpa using hsplit.symm
    simp [hafter]
  · cases between with
    | nil => simp at hrest
    | cons e between => simp at hrest

/-- A local actor is returned to a lookup while it is not deregistered. -/
def ReturnsLive (before : List (RegistryEvent A)) : RegistryEvent A → Prop
  | .returned i (some (.localActor actor)) =>
      ∀ path, .started i path ∈ before → Live before path actor
  | _ => True

theorem fresh_of_preceded (h : Preceded ReturnsLive log) : Fresh log := by
  intro l₀ l₁ l₂ l₃ path actor i hlog
  have hlive := h (l₀ ++ .deregistered path actor :: (l₁ ++ .started i path :: l₂))
    (.returned i (some (.localActor actor))) l₃ (by rw [hlog]; simp) path (by simp)
  have hin := hlive l₀ (l₁ ++ .started i path :: l₂) rfl
  simpa using hin

structure Sound (s : RegistryTasks A) : Prop where
  lock : s.localLock.Guards RegistryTask.writes s.tasks
  live : ∀ path actor, s.registry.localActors[path]? = some actor → Live s.log path actor
  leaving : ∀ i path actor, s.tasks i = .deregistering path actor →
    s.registry.localActors[path]? = none ∧ Live s.log path actor
  cached : ∀ path actor timestamp,
    s.registry.lookupCache[path]? = some (.localActor actor, timestamp) →
    s.registry.localActors[path]? = some actor ∨ ∃ i, s.tasks i = .deregistering path actor
  copied : ∀ i path actor, s.tasks i = .writeCache path actor →
    s.registry.localActors[path]? = some actor
  remote : ∀ i path actor, s.tasks i ≠ .writeRemote path (.localActor actor)
  started : ∀ i path, .started i path ∈ s.log →
    s.tasks i ≠ .idle ∧ ∀ path', (s.tasks i).lookupPath = some path' → path' = path
  returns : Preceded ReturnsLive s.log

theorem sound_start (r : ActorRegistry A) : (start r).Sound where
  lock := fun i => by simp [start, RegistryTask.writes]
  live := fun path actor h => by simp [start] at h
  leaving := fun i path actor h => by simp [start] at h
  cached := fun path actor timestamp h => by simp [start] at h
  copied := fun i path actor h => by simp [start] at h
  remote := fun i path actor h => by simp [start] at h
  started := fun i path h => by simp [start] at h
  returns := preceded_nil

/-- An actor that the cache or the map gives is not deregistered. -/
theorem Sound.live_cached (h : s.Sound) {timestamp : ℕ}
    (hcached : s.registry.lookupCache[path]? = some (.localActor actor, timestamp)) :
    Live s.log path actor := by
  rcases h.cached path actor timestamp hcached with hlocal | ⟨i, hi⟩
  · exact h.live path actor hlocal
  · exact (h.leaving i path actor hi).2

/-- What a call may log: nothing, an error, or an answer that is not a deregistered actor. -/
def Harmless (s : RegistryTasks A) (i : ℕ) (events : List (RegistryEvent A)) : Prop :=
  events = [] ∨ (∃ error, events = [.failed i error]) ∨
    ∃ answer, events = [.returned i answer] ∧ ∀ actor, answer = some (.localActor actor) →
      ∃ path, (s.tasks i).lookupPath = some path ∧ Live s.log path actor

theorem Harmless.not_mem {i : ℕ} (h : s.Harmless i events) :
    (∀ path actor, .deregistered path actor ∉ events) ∧ ∀ j path, .started j path ∉ events := by
  rcases h with rfl | ⟨error, rfl⟩ | ⟨answer, rfl, -⟩ <;> simp

theorem Sound.preceded_append (h : s.Sound) {i : ℕ} (hevents : s.Harmless i events) :
    Preceded ReturnsLive (s.log ++ events) := by
  refine Runs.preceded_append.mpr ⟨h.returns, ?_⟩
  rcases hevents with rfl | ⟨error, rfl⟩ | ⟨answer, rfl, hanswer⟩
  · exact preceded_nil
  · intro before e after hsplit
    obtain ⟨rfl, rfl, -⟩ : before = [] ∧ .failed i error = e ∧ after = [] := by
      cases before <;> simp_all
    trivial
  · intro before e after hsplit
    obtain ⟨rfl, rfl, -⟩ : before = [] ∧ .returned i answer = e ∧ after = [] := by
      cases before <;> simp_all
    rw [List.append_nil]
    match answer with
    | none => trivial
    | some (.remoteActor _ _) => trivial
    | some (.localActor actor) =>
        intro path hstarted
        obtain ⟨path', hpath, hlive⟩ := hanswer actor rfl
        rw [← (h.started i path hstarted).2 path' hpath]
        exact hlive

/-- A section that leaves the map of local actors and enters no stale actor in the cache. -/
theorem Sound.quiet (h : s.Sound) {i : ℕ} {r : ActorRegistry A} {lock : RwLock}
    {task : RegistryTask A} (hlocal : r.localActors = s.registry.localActors)
    (hcache : ∀ (path : String) (actor : A) (timestamp : ℕ),
      r.lookupCache[path]? = some (.localActor actor, timestamp) →
      s.registry.localActors[path]? = some actor ∨
        s.registry.lookupCache[path]? = some (.localActor actor, timestamp))
    (hlock : lock.writer = s.localLock.writer) (hold : (s.tasks i).writes = false)
    (hnew : task.writes = false)
    (hcopied : ∀ path actor, task = .writeCache path actor →
      s.registry.localActors[path]? = some actor)
    (hremote : ∀ path actor, task ≠ .writeRemote path (.localActor actor))
    (hpath : ∀ path, task.lookupPath = some path → (s.tasks i).lookupPath = some path)
    (hidle : task ≠ .idle) (hevents : s.Harmless i events) :
    (s.proceed i r lock task events).Sound := by
  have hleaving : ∀ j path actor, Function.update s.tasks i task j = .deregistering path actor ↔
      s.tasks j = .deregistering path actor := by
    intro j path actor
    by_cases hj : j = i
    · subst hj
      rw [Function.update_self]
      constructor <;> intro heq
      · simp [heq, RegistryTask.writes] at hnew
      · simp [heq, RegistryTask.writes] at hold
    · rw [Function.update_of_ne hj]
  have hquiet := hevents.not_mem
  constructor
  · exact h.lock.update hlock (hnew.trans hold.symm)
  · intro path actor hentry
    rw [proceed, hlocal] at hentry
    exact (h.live path actor hentry).append (hquiet.1 path actor)
  · intro j path actor hj
    obtain ⟨hnone, hlive⟩ := h.leaving j path actor ((hleaving j path actor).mp hj)
    exact ⟨by rw [proceed, hlocal]; exact hnone, hlive.append (hquiet.1 path actor)⟩
  · intro path actor timestamp hentry
    rw [proceed, hlocal]
    rcases hcache path actor timestamp hentry with hin | hin
    · exact Or.inl hin
    · rcases h.cached path actor timestamp hin with hin | ⟨j, hj⟩
      · exact Or.inl hin
      · exact Or.inr ⟨j, (hleaving j path actor).mpr hj⟩
  · intro j path actor hj
    rw [proceed, hlocal]
    change Function.update s.tasks i task j = _ at hj
    by_cases hi : j = i
    · subst hi
      rw [Function.update_self] at hj
      exact hcopied path actor hj
    · rw [Function.update_of_ne hi] at hj
      exact h.copied j path actor hj
  · intro j path actor
    change Function.update s.tasks i task j ≠ _
    by_cases hi : j = i
    · subst hi
      rw [Function.update_self]
      exact hremote path actor
    · rw [Function.update_of_ne hi]
      exact h.remote j path actor
  · intro j path hstarted
    change Function.update s.tasks i task j ≠ .idle ∧ ∀ path',
      (Function.update s.tasks i task j).lookupPath = some path' → path' = path
    have hlog : .started j path ∈ s.log :=
      (List.mem_append.mp hstarted).resolve_right (hquiet.2 j path)
    by_cases hi : j = i
    · subst hi
      rw [Function.update_self]
      exact ⟨hidle, fun path' hpath' => (h.started j path hlog).2 path' (hpath path' hpath')⟩
    · rw [Function.update_of_ne hi]
      exact h.started j path hlog
  · exact h.preceded_append hevents

theorem update_writes_ne {tasks : ℕ → RegistryTask A} {i : ℕ} {task task' : RegistryTask A} {j : ℕ}
    (h : Function.update tasks i task j = task') (hne : task ≠ task') :
    j ≠ i ∧ tasks j = task' := by
  by_cases hj : j = i
  · subst hj
    rw [Function.update_self] at h
    exact absurd h hne
  · rw [Function.update_of_ne hj] at h
    exact ⟨hj, h⟩

/-- The sections under the lock for writing leave the lookups as they are. -/
theorem Sound.started_update (h : s.Sound) {i : ℕ} {task : RegistryTask A} (hidle : task ≠ .idle)
    (hpath : task.lookupPath = none) (hevents : ∀ j path, .started j path ∉ events) (j : ℕ)
    (path : String) (hstarted : .started j path ∈ s.log ++ events) :
    Function.update s.tasks i task j ≠ .idle ∧ ∀ path',
      (Function.update s.tasks i task j).lookupPath = some path' → path' = path := by
  have hlog : .started j path ∈ s.log :=
    (List.mem_append.mp hstarted).resolve_right (hevents j path)
  by_cases hi : j = i
  · subst hi
    rw [Function.update_self, hpath]
    exact ⟨hidle, fun path' hpath' => by simp at hpath'⟩
  · rw [Function.update_of_ne hi]
    exact h.started j path hlog

/-- With the lock free, every cached local actor is registered. -/
theorem Sound.registered_of_cached (h : s.Sound) (hfree : s.localLock.writer = none)
    {timestamp : ℕ}
    (hcached : s.registry.lookupCache[path]? = some (.localActor actor, timestamp)) :
    s.registry.localActors[path]? = some actor := by
  rcases h.cached path actor timestamp hcached with hlocal | ⟨i, hi⟩
  · exact hlocal
  · have hwrites := h.lock.not_writes hfree i
    rw [hi] at hwrites
    exact Bool.noConfusion hwrites

theorem Sound.insertLocal (h : s.Sound) {i : ℕ} (hfree : s.localLock.writer = none)
    (hnew : path ∉ s.registry.localActors) :
    (s.proceed i (s.registry.insertLocal path actor) (s.localLock.write i) (.registering path)
      [.registered path actor]).Sound := by
  have hnone : s.registry.localActors[path]? = none := by
    rw [Std.ExtTreeMap.mem_iff_isSome_getElem?] at hnew
    exact Option.not_isSome_iff_eq_none.mp hnew
  have hkept : ∀ (path' : String) (actor' : A), s.registry.localActors[path']? = some actor' →
      (s.registry.insertLocal path actor).localActors[path']? = some actor' := by
    intro path' actor' hentry
    rw [ActorRegistry.insertLocal, Std.ExtTreeMap.getElem?_insert, if_neg]
    · exact hentry
    · intro heq
      rw [compare_eq_iff_eq] at heq
      rw [← heq, hnone] at hentry
      exact absurd hentry (by simp)
  constructor
  · exact h.lock.acquire hfree rfl
  · intro path' actor' hentry
    change (s.registry.localActors.insert path actor)[path']? = some actor' at hentry
    rw [Std.ExtTreeMap.getElem?_insert] at hentry
    split_ifs at hentry with heq
    · rw [compare_eq_iff_eq] at heq
      obtain rfl := Option.some.inj hentry
      rw [← heq]
      exact live_registered s.log path actor
    · exact (h.live path' actor' hentry).append (by simp)
  · intro j path' actor' hj
    obtain ⟨-, hj⟩ := update_writes_ne hj (by simp)
    have hwrites := h.lock.not_writes hfree j
    rw [hj] at hwrites
    exact Bool.noConfusion hwrites
  · intro path' actor' timestamp hentry
    exact Or.inl (hkept path' actor' (h.registered_of_cached hfree hentry))
  · intro j path' actor' hj
    obtain ⟨-, hj⟩ := update_writes_ne hj (by simp)
    exact hkept path' actor' (h.copied j path' actor' hj)
  · intro j path' actor' hj
    obtain ⟨-, hj⟩ := update_writes_ne hj (by simp)
    exact h.remote j path' actor' hj
  · exact h.started_update (by simp) rfl (by simp)
  · refine Runs.preceded_append.mpr ⟨h.returns, fun before e after hsplit => ?_⟩
    obtain ⟨-, rfl, -⟩ : before = [] ∧ .registered path actor = e ∧ after = [] := by
      cases before <;> simp_all
    trivial

theorem Sound.removeLocal (h : s.Sound) {i : ℕ} (hfree : s.localLock.writer = none)
    (hin : s.registry.localActors[path]? = some actor)
    (hcopies : ∀ j actor', s.tasks j ≠ .writeCache path actor') :
    (s.proceed i (s.registry.removeLocal path) (s.localLock.write i) (.deregistering path actor)
      []).Sound := by
  have hkept : ∀ (path' : String) (actor' : A), s.registry.localActors[path']? = some actor' →
      path' ≠ path → (s.registry.removeLocal path).localActors[path']? = some actor' := by
    intro path' actor' hentry hne
    rw [ActorRegistry.removeLocal, Std.ExtTreeMap.getElem?_erase, if_neg]
    · exact hentry
    · rw [compare_eq_iff_eq]
      exact Ne.symm hne
  constructor
  · exact h.lock.acquire hfree rfl
  · intro path' actor' hentry
    change (s.registry.localActors.erase path)[path']? = some actor' at hentry
    rw [Std.ExtTreeMap.getElem?_erase] at hentry
    split_ifs at hentry
    exact (h.live path' actor' hentry).append (by simp)
  · intro j path' actor' hj
    change Function.update s.tasks i _ j = _ at hj
    by_cases hi : j = i
    · subst hi
      rw [Function.update_self] at hj
      obtain ⟨rfl, rfl⟩ := RegistryTask.deregistering.inj hj
      exact ⟨by simp [proceed, ActorRegistry.removeLocal],
        (h.live path actor hin).append (by simp)⟩
    · rw [Function.update_of_ne hi] at hj
      have hwrites := h.lock.not_writes hfree j
      rw [hj] at hwrites
      exact Bool.noConfusion hwrites
  · intro path' actor' timestamp hentry
    have hlocal := h.registered_of_cached hfree hentry
    by_cases hne : path' = path
    · subst hne
      obtain rfl := Option.some.inj (hin.symm.trans hlocal)
      exact Or.inr ⟨i, Function.update_self ..⟩
    · exact Or.inl (hkept path' actor' hlocal hne)
  · intro j path' actor' hj
    obtain ⟨-, hcopy⟩ := update_writes_ne hj (by simp)
    refine hkept path' actor' (h.copied j path' actor' hcopy) ?_
    rintro rfl
    exact hcopies j actor' hcopy
  · intro j path' actor' hj
    obtain ⟨-, hj⟩ := update_writes_ne hj (by simp)
    exact h.remote j path' actor' hj
  · exact h.started_update (by simp) rfl (by simp)
  · exact h.preceded_append (i := i) (Or.inl rfl)

/-- The last section of a registration or a deregistration, which drops the entry of the cache. -/
theorem Sound.invalidate (h : s.Sound) {i : ℕ} (hold : (s.tasks i).writes = true)
    (hleaving : ∀ path' actor', s.tasks i = .deregistering path' actor' → path' = path)
    (hevents : ∀ e ∈ events, ∃ path' actor', e = .deregistered path' actor' ∧
      s.tasks i = .deregistering path' actor') :
    (s.proceed i (s.registry.invalidate path) s.localLock.releaseWrite .finished events).Sound := by
  have hwriter : ∀ j path' actor', s.tasks j = .deregistering path' actor' → j = i := by
    intro j path' actor' hj
    exact h.lock.eq_of_writes (by rw [hj]; rfl) hold
  constructor
  · exact h.lock.release hold rfl
  · intro path' actor' hentry
    refine (h.live path' actor' hentry).append fun hlogged => ?_
    obtain ⟨_, _, heq, htask⟩ := hevents _ hlogged
    obtain ⟨rfl, rfl⟩ := RegistryEvent.deregistered.inj heq
    have hnone := (h.leaving i path' actor' htask).1
    exact absurd (hnone.symm.trans hentry) (by simp)
  · intro j path' actor' hj
    obtain ⟨hne, hj⟩ := update_writes_ne hj (by simp)
    exact absurd (hwriter j path' actor' hj) hne
  · intro path' actor' timestamp hentry
    change (s.registry.lookupCache.erase path)[path']? = _ at hentry
    rw [Std.ExtTreeMap.getElem?_erase] at hentry
    split_ifs at hentry with hne
    rcases h.cached path' actor' timestamp hentry with hlocal | ⟨j, hj⟩
    · exact Or.inl hlocal
    · obtain rfl := hwriter j path' actor' hj
      exact absurd (compare_eq_iff_eq.mpr (hleaving path' actor' hj).symm) hne
  · intro j path' actor' hj
    obtain ⟨-, hj⟩ := update_writes_ne hj (by simp)
    exact h.copied j path' actor' hj
  · intro j path' actor' hj
    obtain ⟨-, hj⟩ := update_writes_ne hj (by simp)
    exact h.remote j path' actor' hj
  · refine h.started_update (by simp) rfl fun j path' hstarted => ?_
    obtain ⟨_, _, heq, -⟩ := hevents _ hstarted
    exact absurd heq (by simp)
  · refine Runs.preceded_append.mpr ⟨h.returns, fun before e after hsplit => ?_⟩
    obtain ⟨path', actor', rfl, -⟩ := hevents e (by simp [hsplit])
    trivial

theorem Sound.start (h : s.Sound) {i : ℕ} (hidle : s.tasks i = .idle) (call : RegistryCall A) :
    (s.step (.start i call)).Sound := by
  cases call with
  | registerLocal path actor =>
      exact h.quiet rfl (fun _ _ _ hentry => Or.inr hentry) rfl (by rw [hidle]; rfl) rfl (by simp)
        (by simp) (by simp [RegistryTask.lookupPath]) (by simp) (Or.inl rfl)
  | deregisterLocal path =>
      exact h.quiet rfl (fun _ _ _ hentry => Or.inr hentry) rfl (by rw [hidle]; rfl) rfl (by simp)
        (by simp) (by simp [RegistryTask.lookupPath]) (by simp) (Or.inl rfl)
  | lookup path =>
      have hkept : ∀ {j : ℕ} {task : RegistryTask A}, .called (.lookup path) ≠ task →
          Function.update s.tasks i (.called (.lookup path)) j = task → s.tasks j = task :=
        fun hne hj => (update_writes_ne hj hne).2
      constructor
      · exact h.lock.update rfl (by rw [hidle]; rfl)
      · intro path' actor' hentry
        exact (h.live path' actor' hentry).append (by simp)
      · intro j path' actor' hj
        obtain ⟨hnone, hlive⟩ := h.leaving j path' actor' (hkept (by simp) hj)
        exact ⟨hnone, hlive.append (by simp)⟩
      · intro path' actor' timestamp hentry
        rcases h.cached path' actor' timestamp hentry with hlocal | ⟨j, hj⟩
        · exact Or.inl hlocal
        · refine Or.inr ⟨j, ?_⟩
          change Function.update s.tasks i _ j = _
          rw [Function.update_of_ne]
          · exact hj
          · rintro rfl
            exact absurd (hidle.symm.trans hj) (by simp)
      · exact fun j path' actor' hj => h.copied j path' actor' (hkept (by simp) hj)
      · exact fun j path' actor' hj => h.remote j path' actor' (hkept (by simp) hj)
      · intro j path' hstarted
        change Function.update s.tasks i _ j ≠ .idle ∧ ∀ path'',
          (Function.update s.tasks i _ j).lookupPath = some path'' → path'' = path'
        by_cases hi : j = i
        · subst hi
          have hpath : path' = path := by
            rcases List.mem_append.mp hstarted with hlog | hnew
            · exact absurd hidle (h.started j path' hlog).1
            · simpa using hnew
          rw [Function.update_self]
          exact ⟨by simp, fun path'' hpath'' => by
            rw [hpath]; exact (Option.some.inj hpath'').symm⟩
        · have hlog : .started j path' ∈ s.log := by
            rcases List.mem_append.mp hstarted with hlog | hnew
            · exact hlog
            · simp [hi] at hnew
          rw [Function.update_of_ne hi]
          exact h.started j path' hlog
      · refine Runs.preceded_append.mpr ⟨h.returns, fun before e after hsplit => ?_⟩
        obtain ⟨-, rfl, -⟩ : before = [] ∧ .started i path = e ∧ after = [] := by
          cases before <;> simp_all
        trivial

theorem findRemote_ne_local {r : ActorRegistry A} {order : List (ActorPath × NodeId)}
    {actorRef : ClusterActorRef A} (h : r.findRemote path order = some actorRef) (actor : A) :
    actorRef ≠ .localActor actor := by
  rintro rfl
  unfold ActorRegistry.findRemote at h
  split at h
  · split_ifs at h
    simp at h
  · split at h
    · simp at h
    · split at h <;> simp at h

/-- The sections of a lookup before the map of local actors is read. -/
theorem Sound.quiet_lookup (h : s.Sound) {i : ℕ} {r : ActorRegistry A} {lock : RwLock}
    {task : RegistryTask A} (hlocal : r.localActors = s.registry.localActors)
    (hcache : ∀ (path : String) (entry : ClusterActorRef A × ℕ),
      r.lookupCache[path]? = some entry → s.registry.lookupCache[path]? = some entry)
    (hlock : lock.writer = s.localLock.writer) (hold : (s.tasks i).writes = false)
    (hpath : (s.tasks i).lookupPath = some path)
    (htask : task = .checkCache path ∨ task = .countMiss path ∨ task = .readLocal path ∨
      task = .searchRemote path ∨ task = .finished) (hevents : s.Harmless i events) :
    (s.proceed i r lock task events).Sound := by
  refine h.quiet hlocal (fun path' actor' timestamp hentry => Or.inr (hcache path' _ hentry)) hlock
    hold ?_ ?_ ?_ ?_ ?_ hevents
  · rcases htask with rfl | rfl | rfl | rfl | rfl <;> rfl
  · rcases htask with rfl | rfl | rfl | rfl | rfl <;> simp
  · rcases htask with rfl | rfl | rfl | rfl | rfl <;> simp
  · rw [hpath]
    rcases htask with rfl | rfl | rfl | rfl | rfl <;> simp [RegistryTask.lookupPath]
  · rcases htask with rfl | rfl | rfl | rfl | rfl <;> simp

section Sections

variable {i : ℕ} {reading : LookupReading A}

theorem Sound.enter (h : s.Sound) {call : RegistryCall A} (htask : s.tasks i = .called call)
    (hwrite : (RegistryTask.called call).acquiresWrite = true → s.localLock.CanWrite)
    (hcopies : ∀ path, (RegistryTask.called call).deregisters = some path →
      ∀ j actor, s.tasks j ≠ .writeCache path actor) : (s.enter i reading call).Sound := by
  have hold : (s.tasks i).writes = false := by rw [htask]; rfl
  cases call with
  | registerLocal path actor =>
      simp only [RegistryTasks.enter]
      split_ifs with hin
      · exact h.quiet rfl (fun _ _ _ hentry => Or.inr hentry) rfl hold rfl (by simp) (by simp)
          (by simp [RegistryTask.lookupPath]) (by simp) (Or.inr (Or.inl ⟨_, rfl⟩))
      · exact h.insertLocal (hwrite rfl).1 hin
  | deregisterLocal path =>
      simp only [RegistryTasks.enter]
      cases hin : s.registry.localActors[path]? with
      | none =>
          exact h.quiet rfl (fun _ _ _ hentry => Or.inr hentry) rfl hold rfl (by simp)
            (by simp) (by simp [RegistryTask.lookupPath]) (by simp) (Or.inr (Or.inl ⟨_, rfl⟩))
      | some actor => exact h.removeLocal (hwrite rfl).1 hin (hcopies path rfl)
  | lookup path =>
      have hpath : (s.tasks i).lookupPath = some path := by rw [htask]; rfl
      simp only [RegistryTasks.enter]
      split_ifs
      · refine h.quiet_lookup ?_ (fun _ _ => ActorRegistry.getElem?_cleanedBy) rfl hold hpath
          (Or.inl rfl) (Or.inl rfl)
        cases reading.cleaned <;> rfl
      · exact h.quiet_lookup rfl (fun _ _ hentry => hentry) rfl hold hpath
          (Or.inr (Or.inr (Or.inl rfl))) (Or.inl rfl)

theorem Sound.checkCache (h : s.Sound) (htask : s.tasks i = .checkCache path) :
    (s.advance i reading).Sound := by
  have hold : (s.tasks i).writes = false := by rw [htask]; rfl
  have hpath : (s.tasks i).lookupPath = some path := by rw [htask]; rfl
  unfold RegistryTasks.advance
  rw [htask]
  dsimp only
  cases hcached : s.registry.cached path reading.now with
  | none =>
      exact h.quiet_lookup rfl (fun _ _ hentry => hentry) rfl hold hpath (by simp) (Or.inl rfl)
  | some actorRef =>
      obtain ⟨timestamp, hentry⟩ := ActorRegistry.exists_of_cached hcached
      refine h.quiet_lookup rfl (fun _ _ hentry => hentry) rfl hold hpath (by simp)
        (Or.inr (Or.inr ⟨_, rfl, fun actor hactor => ⟨path, hpath, ?_⟩⟩))
      rw [Option.some.inj hactor] at hentry
      exact h.live_cached hentry

theorem Sound.readLocal (h : s.Sound) (htask : s.tasks i = .readLocal path) :
    (s.advance i reading).Sound := by
  have hold : (s.tasks i).writes = false := by rw [htask]; rfl
  have hpath : (s.tasks i).lookupPath = some path := by rw [htask]; rfl
  unfold RegistryTasks.advance
  rw [htask]
  dsimp only
  cases hin : s.registry.localActors[path]? with
  | none =>
      exact h.quiet_lookup rfl (fun _ _ hentry => hentry) rfl hold hpath (by simp) (Or.inl rfl)
  | some actor =>
      dsimp only
      split_ifs
      · refine h.quiet rfl (fun _ _ _ hentry => Or.inr hentry) rfl hold rfl ?_ (by simp)
          (fun path' hpath' => ?_) (by simp) (Or.inl rfl)
        · intro path' actor' heq
          obtain ⟨rfl, rfl⟩ := RegistryTask.writeCache.inj heq
          exact hin
        · rw [hpath]
          exact hpath'
      · refine h.quiet_lookup rfl (fun _ _ hentry => hentry) rfl hold hpath (by simp)
          (Or.inr (Or.inr ⟨_, rfl, fun actor' hactor => ⟨path, hpath, ?_⟩⟩))
        obtain rfl := ClusterActorRef.localActor.inj (Option.some.inj hactor)
        exact h.live path actor hin

theorem Sound.writeCache (h : s.Sound) {actor : A} (htask : s.tasks i = .writeCache path actor) :
    (s.advance i reading).Sound := by
  have hin := h.copied i path actor htask
  unfold RegistryTasks.advance
  rw [htask]
  refine h.quiet rfl (fun path' actor' timestamp hentry => ?_) rfl (by rw [htask]; rfl) rfl
    (by simp) (by simp) (by simp [RegistryTask.lookupPath]) (by simp)
    (Or.inr (Or.inr ⟨_, rfl, fun actor' hactor => ⟨path, by rw [htask]; rfl, ?_⟩⟩))
  · rcases ActorRegistry.getElem?_cacheInsert hentry with ⟨rfl, heq⟩ | hold
    · obtain rfl := ClusterActorRef.localActor.inj heq
      exact Or.inl hin
    · exact Or.inr hold
  · obtain rfl := ClusterActorRef.localActor.inj (Option.some.inj hactor)
    exact h.live path actor hin

theorem Sound.searchRemote (h : s.Sound) (htask : s.tasks i = .searchRemote path) :
    (s.advance i reading).Sound := by
  have hold : (s.tasks i).writes = false := by rw [htask]; rfl
  have hpath : (s.tasks i).lookupPath = some path := by rw [htask]; rfl
  unfold RegistryTasks.advance
  rw [htask]
  dsimp only
  cases hfound : s.registry.findRemote path reading.remoteOrder with
  | none =>
      exact h.quiet_lookup rfl (fun _ _ hentry => hentry) rfl hold hpath (by simp)
        (Or.inr (Or.inr ⟨_, rfl, by simp⟩))
  | some actorRef =>
      have hremote := findRemote_ne_local hfound
      dsimp only
      split_ifs
      · refine h.quiet rfl (fun _ _ _ hentry => Or.inr hentry) rfl hold rfl (by simp) ?_
          (fun path' hpath' => ?_) (by simp) (Or.inl rfl)
        · intro path' actor' heq
          exact hremote actor' (RegistryTask.writeRemote.inj heq).2
        · rw [hpath]
          exact hpath'
      · refine h.quiet_lookup rfl (fun _ _ hentry => hentry) rfl hold hpath (by simp)
          (Or.inr (Or.inr ⟨_, rfl, fun actor hactor => ?_⟩))
        exact absurd (Option.some.inj hactor) (hremote actor)

theorem Sound.writeRemote (h : s.Sound) {actorRef : ClusterActorRef A}
    (htask : s.tasks i = .writeRemote path actorRef) : (s.advance i reading).Sound := by
  have hremote (actor : A) : actorRef ≠ .localActor actor := by
    rintro rfl
    exact h.remote i path actor htask
  unfold RegistryTasks.advance
  rw [htask]
  refine h.quiet rfl (fun path' actor' timestamp hentry => ?_) rfl (by rw [htask]; rfl) rfl
    (by simp) (by simp) (by simp [RegistryTask.lookupPath]) (by simp)
    (Or.inr (Or.inr ⟨_, rfl, fun actor' hactor => ?_⟩))
  · rcases ActorRegistry.getElem?_cacheInsert hentry with ⟨-, heq⟩ | hold
    · exact absurd heq (hremote actor')
    · exact Or.inr hold
  · exact absurd (Option.some.inj hactor) (hremote actor')

theorem Sound.advance (h : s.Sound) (henabled : s.Enabled (.advance i reading))
    (hkept : s.Undisturbed (.advance i reading)) : (s.advance i reading).Sound := by
  cases htask : s.tasks i with
  | idle | finished => rwa [RegistryTasks.advance, htask]
  | called call =>
      have hwrite := henabled.1
      have hcopies : ∀ path, (s.tasks i).deregisters = some path →
          ∀ j actor, s.tasks j ≠ .writeCache path actor := hkept
      rw [htask] at hwrite hcopies
      rw [RegistryTasks.advance, htask]
      exact h.enter htask hwrite hcopies
  | registering path =>
      rw [RegistryTasks.advance, htask]
      exact h.invalidate (by rw [htask]; rfl) (by simp [htask]) (by simp)
  | deregistering path actor =>
      rw [RegistryTasks.advance, htask]
      refine h.invalidate (by rw [htask]; rfl) (fun path' actor' heq => ?_) fun e he => ?_
      · rw [htask] at heq
        exact (RegistryTask.deregistering.inj heq).1.symm
      · exact ⟨path, actor, List.mem_singleton.mp he, htask⟩
  | checkCache path => exact h.checkCache htask
  | countMiss path =>
      rw [RegistryTasks.advance, htask]
      exact h.quiet_lookup rfl (fun _ _ hentry => hentry) rfl (by rw [htask]; rfl)
        (by rw [htask]; rfl) (Or.inr (Or.inr (Or.inl rfl))) (Or.inl rfl)
  | readLocal path => exact h.readLocal htask
  | writeCache path actor => exact h.writeCache htask
  | searchRemote path => exact h.searchRemote htask
  | writeRemote path actorRef => exact h.writeRemote htask

end Sections

theorem sound_step (h : s.Sound) {a : RegistryTaskAction A} (henabled : s.Enabled a)
    (hkept : s.Undisturbed a) : (s.step a).Sound := by
  cases a with
  | start i call =>
      refine h.start ?_ call
      change (s.tasks i).isIdle = true at henabled
      cases htask : s.tasks i with
      | idle => rfl
      | _ =>
          rw [htask] at henabled
          exact Bool.noConfusion henabled
  | advance i reading => exact h.advance henabled hkept

/-- As long as no actor is deregistered while a lookup of its path has a copy that it has still to
enter in the cache, a lookup that is started after a deregistration does not return the actor unless
it is registered again. -/
theorem no_stale_lookup (r : ActorRegistry A) (as : List (RegistryTaskAction A))
    (has : Admissible step Enabled (start r) as)
    (hkept : Admissible step Undisturbed (start r) as) :
    Fresh (run step (start r) as).log := by
  have hsound : (run step (start r) as).Sound :=
    invariant_run (I := Sound) (fun _ _ h hok => sound_step h hok.1 hok.2) (sound_start r)
      (admissible_and.mpr ⟨has, hkept⟩)
  exact fresh_of_preceded hsound.returns

/-- A call that reads the clock at zero and finds no remote actor. -/
def section0 (i : ℕ) : RegistryTaskAction ℕ := .advance i ⟨none, 0, 0, [], []⟩

/-- An actor is registered, looked up, deregistered and looked up again. -/
def deregistration : List (RegistryTaskAction ℕ) :=
  [.start 0 (.registerLocal "a" 7), section0 0, section0 0,
    .start 1 (.lookup "a"), section0 1, section0 1, section0 1, section0 1, section0 1,
    .start 2 (.deregisterLocal "a"), section0 2, section0 2,
    .start 3 (.lookup "a"), section0 3, section0 3]

/-- The first lookup enters its copy after the deregistration. -/
def lateEntry : List (RegistryTaskAction ℕ) :=
  [.start 0 (.registerLocal "a" 7), section0 0, section0 0,
    .start 1 (.lookup "a"), section0 1, section0 1, section0 1, section0 1,
    .start 2 (.deregisterLocal "a"), section0 2, section0 2, section0 1,
    .start 3 (.lookup "a"), section0 3, section0 3]

/-- The step removes no actor. -/
def removesNone (s : RegistryTasks A) : RegistryTaskAction A → Bool
  | .advance i _ => (s.tasks i).deregisters.isNone
  | _ => true

theorem undisturbed_of_removesNone (s : RegistryTasks A) (a : RegistryTaskAction A)
    (h : s.removesNone a = true) : s.Undisturbed a := by
  cases a with
  | start i call => trivial
  | advance i reading =>
      intro path hpath
      rw [removesNone, hpath] at h
      exact Bool.noConfusion h

/-- When the actor is deregistered, no lookup has a copy. -/
theorem ne_writeCache_deregistration (path : String) (actor j : ℕ) :
    (run step (start (.new 0)) (deregistration.take 10)).tasks j ≠ .writeCache path actor := by
  match j with
  | 0 => exact nofun
  | 1 => exact nofun
  | 2 => exact nofun
  | j + 3 => exact nofun

theorem no_stale_lookup_deregistration :
    Fresh (run step (start (.new 0)) deregistration).log ∧
      .deregistered "a" 7 ∈ (run step (start (.new 0)) deregistration).log := by
  have henabled : Admissible step Enabled (start (.new 0)) deregistration := by decide +kernel
  refine ⟨no_stale_lookup (.new 0) deregistration henabled ?_, by decide +kernel⟩
  have hsplit : deregistration = deregistration.take 10 ++ section0 2 :: deregistration.drop 11 :=
    rfl
  rw [hsplit]
  have hbefore : Admissible step (fun s a => s.removesNone a = true) (start (.new 0))
      (deregistration.take 10) := by decide +kernel
  have hafter : Admissible step (fun s a => s.removesNone a = true)
      (step (run step (start (.new 0)) (deregistration.take 10)) (section0 2))
      (deregistration.drop 11) := by
    decide +kernel
  refine admissible_append.mpr ⟨admissible_mono undisturbed_of_removesNone hbefore, ?_⟩
  refine ⟨?_, admissible_mono undisturbed_of_removesNone hafter⟩
  exact fun path _ j actor => ne_writeCache_deregistration path actor j

theorem not_no_stale_lookup :
    ¬ ∀ (r : ActorRegistry ℕ) (as : List (RegistryTaskAction ℕ)),
      Admissible step Enabled (start r) as → Fresh (run step (start r) as).log := by
  intro h
  have hfresh := h (.new 0) lateEntry (by decide +kernel)
  have hregistered := hfresh [.registered "a" 7, .started 1 "a"]
    [.returned 1 (some (.localActor 7))] [] [] "a" 7 3 (by decide +kernel)
  exact absurd hregistered (by simp)

end RegistryTasks

end ActixPura
