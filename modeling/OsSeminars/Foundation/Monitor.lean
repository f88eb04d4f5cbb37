import Mathlib.Data.Fintype.Basic
import Mathlib.Logic.Function.Basic

/-!
# Foundation: a mutex and a condition variable

A monitor is a mutex together with the wait set of one condition variable, over
an arbitrary type of threads. Every operation is partial: it is undefined where
the calling thread blocks (`lock` of a held mutex) and where the call is not
allowed (`unlock` and `wait` by a thread that does not hold the mutex).

The second section is the rule for critical sections. If the program points
inside the critical section are a predicate `crit`, then `Guards` says that the
mutex is held by exactly the thread that is there. It is kept by locking on the
way in, by unlocking or waiting on the way out, and by any other move that
stays on its side.
-/

namespace OsSeminars
namespace Foundation

universe u v

structure Monitor (ι : Type u) where
  holder : Option ι
  waiting : ι → Bool

namespace Monitor

variable {ι : Type u} [DecidableEq ι]

/-- `PTHREAD_MUTEX_INITIALIZER` and `PTHREAD_COND_INITIALIZER`. -/
def initial : Monitor ι where
  holder := none
  waiting _ := false

/-- `pthread_mutex_lock`: possible while nobody holds the mutex. -/
def lock (m : Monitor ι) (t : ι) : Option (Monitor ι) :=
  if m.holder = none then some { m with holder := some t } else none

/-- `pthread_mutex_unlock` by the holder. -/
def unlock (m : Monitor ι) (t : ι) : Option (Monitor ι) :=
  if m.holder = some t then some { m with holder := none } else none

/-- The first part of `pthread_cond_wait`: release the mutex and join the wait
set in one step. Returning from the call is a `lock` once out of the set. -/
def wait (m : Monitor ι) (t : ι) : Option (Monitor ι) :=
  if m.holder = some t then
    some { holder := none, waiting := Function.update m.waiting t true }
  else none

/-- Remove a thread from the wait set. -/
def wake (m : Monitor ι) (t : ι) : Option (Monitor ι) :=
  if m.waiting t then
    some { m with waiting := Function.update m.waiting t false }
  else none

/-- `pthread_cond_signal` wakes one waiting thread, if there is one. -/
def signal
    [Fintype ι]
    (m : Monitor ι) :
    Option ι → Option (Monitor ι)
  | some t => m.wake t
  | none => if ∀ t, m.waiting t = false then some m else none

section Operations

variable {m m' : Monitor ι} {t : ι}

omit [DecidableEq ι] in
theorem lock_eq_some_iff :
    m.lock t = some m' ↔
      m.holder = none ∧ m' = { m with holder := some t } := by
  unfold lock
  split_ifs with h
  · simp [h, eq_comm]
  · simp [h]

theorem unlock_eq_some_iff :
    m.unlock t = some m' ↔
      m.holder = some t ∧ m' = { m with holder := none } := by
  unfold unlock
  split_ifs with h
  · simp [h, eq_comm]
  · simp [h]

theorem wait_eq_some_iff :
    m.wait t = some m' ↔
      m.holder = some t ∧
      m' = { holder := none, waiting := Function.update m.waiting t true } := by
  unfold wait
  split_ifs with h
  · simp [h, eq_comm]
  · simp [h]

theorem wake_eq_some_iff :
    m.wake t = some m' ↔
      m.waiting t = true ∧
      m' = { m with waiting := Function.update m.waiting t false } := by
  unfold wake
  split_ifs with h
  · simp [h, eq_comm]
  · simp [h]

variable [Fintype ι]

/-- A signal never moves the mutex, and adds nobody to the wait set. -/
theorem signal_eq_some
    {w : Option ι}
    (h : m.signal w = some m') :
    m'.holder = m.holder ∧
    ∀ u, m'.waiting u = true → m.waiting u = true ∧ w ≠ some u := by
  cases w with
  | none =>
      unfold signal at h
      split_ifs at h
      cases h
      exact ⟨rfl, fun u hu => ⟨hu, fun hw => by cases hw⟩⟩
  | some t =>
      obtain ⟨-, rfl⟩ := wake_eq_some_iff.mp h
      refine ⟨rfl, fun u hu => ?_⟩
      by_cases hut : u = t
      · subst hut
        simp at hu
      · refine ⟨by simpa [hut] using hu, fun hw => hut ?_⟩
        exact (Option.some.inj hw).symm

/-- A signal that wakes nobody finds the wait set empty. -/
theorem signal_none
    (h : m.signal none = some m') :
    ∀ u, m'.waiting u = false := by
  unfold signal at h
  split_ifs at h with hall
  cases h
  exact hall

/-- Some signal is always possible. -/
theorem exists_signal
    (m : Monitor ι) :
    ∃ w, (m.signal w).isSome = true := by
  by_cases h : ∀ t, m.waiting t = false
  · exact ⟨none, by simp [signal, h]⟩
  · rw [not_forall] at h
    obtain ⟨t, ht⟩ := h
    rw [Bool.not_eq_false] at ht
    exact ⟨some t, by simp [signal, wake, ht]⟩

end Operations

section CriticalSections

variable {π : Type v}

/-- The mutex is held by exactly the threads whose program point is in `crit`. -/
def Guards
    (m : Monitor ι)
    (crit : π → Prop)
    (pcs : ι → π) : Prop :=
  ∀ t, crit (pcs t) ↔ m.holder = some t

variable {m m' : Monitor ι} {crit : π → Prop} {pcs : ι → π}
variable {t u : ι} {pc : π}

omit [DecidableEq ι] in
/-- Mutual exclusion. -/
theorem Guards.unique
    (h : m.Guards crit pcs)
    (ht : crit (pcs t))
    (hu : crit (pcs u)) :
    t = u := by
  have hholder := (h t).mp ht
  rw [(h u).mp hu] at hholder
  exact (Option.some.inj hholder).symm

/-- A move that stays inside or stays outside. -/
theorem Guards.move
    (h : m.Guards crit pcs)
    (hpc : crit pc ↔ crit (pcs t)) :
    m.Guards crit (Function.update pcs t pc) := by
  intro u
  by_cases hu : u = t
  · subst hu
    rw [Function.update_self, hpc]
    exact h u
  · rw [Function.update_of_ne hu]
    exact h u

/-- Entering the critical section by locking. -/
theorem Guards.enter
    (h : m.Guards crit pcs)
    (hfree : m.holder = none)
    (hholder : m'.holder = some t)
    (hpc : crit pc) :
    m'.Guards crit (Function.update pcs t pc) := by
  intro u
  rw [hholder]
  by_cases hu : u = t
  · subst hu
    simp [hpc]
  · rw [Function.update_of_ne hu, h u, hfree]
    simp [Ne.symm hu]

/-- Leaving the critical section by giving the mutex back. -/
theorem Guards.leave
    (h : m.Guards crit pcs)
    (hheld : m.holder = some t)
    (hholder : m'.holder = none)
    (hpc : ¬ crit pc) :
    m'.Guards crit (Function.update pcs t pc) := by
  intro u
  rw [hholder]
  by_cases hu : u = t
  · subst hu
    simp [hpc]
  · rw [Function.update_of_ne hu, h u, hheld]
    simp [Ne.symm hu]

end CriticalSections

end Monitor

end Foundation
end OsSeminars
