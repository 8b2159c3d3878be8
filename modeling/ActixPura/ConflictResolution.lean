import ActixPura.VectorClock

/-!
# Conflict resolution

The resolvers of `sync/mod.rs` are asked by a replica that holds one version and receives another.
Both keep the held version unless the remote one is clearly newer: by its vector clock, or by more
than the tolerated drift of the wall clocks. Two replicas that exchange their versions therefore
end with the same one exactly when one version is clearly newer than the other, or when they held
the same version to begin with. A `SystemTime` is an integer number of nanoseconds from the Unix
epoch and a `Duration` a natural number of them.
-/

namespace ActixPura

/-- `SystemTime::duration_since`, in nanoseconds: the distance to an earlier time, or the distance
as an error when that time is later. -/
def durationSince (t earlier : ℤ) : Except ℕ ℕ :=
  if earlier ≤ t then .ok (t - earlier).toNat else .error (earlier - t).toNat

class HasTimestamp (T : Type*) where
  timestamp : T → ℤ

class HasVectorClock (T : Type*) where
  vectorClock : T → VectorClock

open HasTimestamp HasVectorClock

variable {T : Type*}

structure LastWriteWinsResolver where
  clockDriftTolerance : ℕ

def LastWriteWinsResolver.resolve [HasTimestamp T] (r : LastWriteWinsResolver) (held remote : T) :
    T :=
  match durationSince (timestamp remote) (timestamp held) with
  | .ok duration => if r.clockDriftTolerance < duration then remote else held
  | .error _ => held

def VectorClockResolver.resolve [HasVectorClock T] (held remote : T) : T :=
  match (vectorClock held).compare (vectorClock remote) with
  | .greater => held
  | .less => remote
  | .concurrent => held
  | .equal => held

theorem LastWriteWinsResolver.resolve_eq [HasTimestamp T] (r : LastWriteWinsResolver)
    (held remote : T) : r.resolve held remote =
      if timestamp held + r.clockDriftTolerance < timestamp remote then remote else held := by
  unfold resolve durationSince
  by_cases hle : timestamp held ≤ timestamp remote
  · simp only [if_pos hle]
    have hiff : r.clockDriftTolerance < (timestamp remote - timestamp held).toNat ↔
        timestamp held + r.clockDriftTolerance < timestamp remote := by omega
    simp only [hiff]
  · rw [if_neg hle, if_neg (by omega)]

theorem LastWriteWinsResolver.resolve_comm_iff [HasTimestamp T] (r : LastWriteWinsResolver)
    (x y : T) : r.resolve x y = r.resolve y x ↔
      x = y ∨ r.clockDriftTolerance < |timestamp x - timestamp y| := by
  rw [r.resolve_eq, r.resolve_eq, lt_abs]
  by_cases hxy : timestamp x + r.clockDriftTolerance < timestamp y
  · rw [if_pos hxy, if_neg (by omega)]
    exact iff_of_true rfl (Or.inr (Or.inr (by omega)))
  · rw [if_neg hxy]
    by_cases hyx : timestamp y + r.clockDriftTolerance < timestamp x
    · rw [if_pos hyx]
      exact iff_of_true rfl (Or.inr (Or.inl (by omega)))
    · rw [if_neg hyx, or_iff_left]
      omega

theorem VectorClockResolver.resolve_eq [HasVectorClock T] (held remote : T) :
    VectorClockResolver.resolve held remote =
      if (vectorClock held).compare (vectorClock remote) = .less then remote else held := by
  unfold resolve
  cases (vectorClock held).compare (vectorClock remote) <;> rfl

theorem VectorClockResolver.resolve_comm_iff [HasVectorClock T] (x y : T) :
    VectorClockResolver.resolve x y = VectorClockResolver.resolve y x ↔
      x = y ∨ (vectorClock x).compare (vectorClock y) = .less ∨
        (vectorClock x).compare (vectorClock y) = .greater := by
  have hflip : (vectorClock y).compare (vectorClock x) = .less ↔
      (vectorClock x).compare (vectorClock y) = .greater := by
    rw [VectorClock.compare_eq_less_iff, VectorClock.compare_eq_greater_iff]
  rw [VectorClockResolver.resolve_eq, VectorClockResolver.resolve_eq]
  simp only [hflip]
  cases (vectorClock x).compare (vectorClock y) <;> simp

/-- Replicas that exchange their versions end with the same one exactly when they held the same
version, or one version is later: by a strictly greater vector clock, or by more than the
tolerance. -/
theorem resolvers_converge_iff [HasTimestamp T] [HasVectorClock T] (r : LastWriteWinsResolver)
    (x y : T) :
    (VectorClockResolver.resolve x y = VectorClockResolver.resolve y x ↔
      x = y ∨ (vectorClock x).compare (vectorClock y) = .less ∨
        (vectorClock x).compare (vectorClock y) = .greater) ∧
    (r.resolve x y = r.resolve y x ↔
      x = y ∨ r.clockDriftTolerance < |timestamp x - timestamp y|) :=
  ⟨VectorClockResolver.resolve_comm_iff x y, r.resolve_comm_iff x y⟩

/-- A value with its clocks, as the tests of the module build it. -/
structure StampedValue where
  value : String
  timestamp : ℤ
  vectorClock : VectorClock

instance : HasTimestamp StampedValue := ⟨StampedValue.timestamp⟩

instance : HasVectorClock StampedValue := ⟨StampedValue.vectorClock⟩

/-- Two concurrent versions of the same time: each replica keeps its own, with either resolver. -/
theorem not_resolvers_converge : ∃ x y : StampedValue,
    VectorClockResolver.resolve x y ≠ VectorClockResolver.resolve y x ∧
      ∀ r : LastWriteWinsResolver, r.resolve x y ≠ r.resolve y x := by
  let x : StampedValue := ⟨"a", 0, VectorClock.new.set 1 1⟩
  let y : StampedValue := ⟨"b", 0, VectorClock.new.set 2 1⟩
  have hne : x ≠ y := fun h => absurd (congrArg StampedValue.value h) (by decide)
  refine ⟨x, y, fun h => ?_, fun r h => ?_⟩
  · have hcompare : x.vectorClock.compare y.vectorClock = .concurrent := by decide +kernel
    rcases (VectorClockResolver.resolve_comm_iff x y).mp h with heq | hless | hgreater
    · exact hne heq
    · exact absurd (hcompare.symm.trans hless) (by decide)
    · exact absurd (hcompare.symm.trans hgreater) (by decide)
  · rcases (r.resolve_comm_iff x y).mp h with heq | hlt
    · exact hne heq
    · simp only [x, y, timestamp, sub_self, abs_zero] at hlt
      omega

end ActixPura
