import Mathlib.Data.List.Basic

/-!
# Locks

A lock that is shared by readers or held by one writer, with the tasks that hold it. Whether a task
may acquire it is a guard of its step; what the guards give is that a writer is alone.
-/

namespace ActixPura

structure RwLock where
  writer : Option ℕ
  readers : List ℕ
  deriving DecidableEq

namespace RwLock

def free : RwLock := ⟨none, []⟩

variable (l : RwLock)

def CanRead : Prop := l.writer = none

def CanWrite : Prop := l.writer = none ∧ l.readers = []

instance decidableCanRead : Decidable l.CanRead := inferInstanceAs (Decidable (l.writer = none))

instance decidableCanWrite : Decidable l.CanWrite :=
  inferInstanceAs (Decidable (l.writer = none ∧ l.readers = []))

def read (i : ℕ) : RwLock := ⟨l.writer, i :: l.readers⟩

def write (i : ℕ) : RwLock := ⟨some i, l.readers⟩

def releaseRead (i : ℕ) : RwLock := ⟨l.writer, l.readers.erase i⟩

def releaseWrite : RwLock := ⟨none, l.readers⟩

@[simp] theorem writer_free : free.writer = none := rfl

@[simp] theorem writer_read (i : ℕ) : (l.read i).writer = l.writer := rfl

@[simp] theorem writer_write (i : ℕ) : (l.write i).writer = some i := rfl

@[simp] theorem writer_releaseRead (i : ℕ) : (l.releaseRead i).writer = l.writer := rfl

@[simp] theorem writer_releaseWrite : l.releaseWrite.writer = none := rfl

variable {l} {T : Type*} {tasks : ℕ → T} {writes : T → Bool}

/-- The tasks that hold the lock for writing are those that the lock knows, one at most. -/
def Guards (l : RwLock) (writes : T → Bool) (tasks : ℕ → T) : Prop :=
  ∀ i, writes (tasks i) = true ↔ l.writer = some i

theorem Guards.eq_of_writes (h : l.Guards writes tasks) {i j : ℕ} (hi : writes (tasks i) = true)
    (hj : writes (tasks j) = true) : i = j :=
  Option.some.inj (((h i).mp hi).symm.trans ((h j).mp hj))

theorem Guards.not_writes (h : l.Guards writes tasks) (hl : l.writer = none) (i : ℕ) :
    writes (tasks i) = false := by
  by_contra hi
  have hwriter := (h i).mp (by simpa using hi)
  rw [hl] at hwriter
  exact absurd hwriter (by simp)

/-- A step that neither acquires the lock for writing nor releases it. -/
theorem Guards.update {l' : RwLock} (h : l.Guards writes tasks) (hl : l'.writer = l.writer) {i : ℕ}
    {task : T} (hi : writes task = writes (tasks i)) :
    l'.Guards writes (Function.update tasks i task) := by
  intro j
  rw [hl]
  by_cases hj : j = i
  · subst hj
    rw [Function.update_self, hi]
    exact h j
  · rw [Function.update_of_ne hj]
    exact h j

theorem Guards.acquire (h : l.Guards writes tasks) (hl : l.writer = none) {i : ℕ} {task : T}
    (hi : writes task = true) : (l.write i).Guards writes (Function.update tasks i task) := by
  intro j
  by_cases hj : j = i
  · subst hj
    simp [hi]
  · rw [Function.update_of_ne hj, h.not_writes hl j]
    simp [Ne.symm hj]

theorem Guards.release (h : l.Guards writes tasks) {i : ℕ} (hold : writes (tasks i) = true)
    {task : T} (hi : writes task = false) :
    l.releaseWrite.Guards writes (Function.update tasks i task) := by
  intro j
  by_cases hj : j = i
  · subst hj
    simp [hi]
  · rw [Function.update_of_ne hj]
    have hnot : writes (tasks j) = false := by
      by_contra hother
      exact hj (h.eq_of_writes (by simpa using hother) hold)
    simp [hnot]

end RwLock

end ActixPura
