import OsSeminars.Foundation.Search
import Mathlib.Logic.Function.Basic

/-!
# Foundation: descriptor tables

The descriptor table of a process says what each descriptor number refers to.
Numbers from a limit on are never in use. Calls that open something take the
lowest free number, and `dup2` puts a reference under a given number, closing
what was there before; onto itself it does nothing.
-/

namespace OsSeminars
namespace Foundation

universe u v

/-- What the descriptor numbers of a process refer to. -/
structure FdTable (α : Type u) where
  limit : Nat
  entry : Nat → Option α
  bounded : ∀ fd, limit ≤ fd → entry fd = none

namespace FdTable

variable {α : Type u} {β : Type v}

/-- The same numbers, referring to something else. -/
def map
    (f : α → β)
    (t : FdTable α) :
    FdTable β where
  limit := t.limit
  entry fd := (t.entry fd).map f
  bounded fd h := by
    rw [t.bounded fd h]
    rfl

/-- Let a number below the limit refer to something or to nothing. -/
def set
    (t : FdTable α)
    (fd : Nat)
    (x : Option α)
    (h : fd < t.limit) :
    FdTable α where
  limit := t.limit
  entry := Function.update t.entry fd x
  bounded fd' h' := by
    rw [Function.update_of_ne (by omega)]
    exact t.bounded fd' h'

/-- The lowest number that is not in use. -/
def lowestFree
    (t : FdTable α) :
    Option Nat :=
  firstFrom (fun fd => (t.entry fd).isNone) 0 t.limit

/-- Open something under the lowest free number. -/
def alloc
    (t : FdTable α)
    (x : α) :
    Option (Nat × FdTable α) :=
  match t.lowestFree with
  | none => none
  | some fd => if h : fd < t.limit then some (fd, t.set fd (some x) h) else none

/-- `close`: nothing happens for a number that is not in use. -/
def close
    (t : FdTable α)
    (fd : Nat) :
    FdTable α :=
  if h : fd < t.limit then t.set fd none h else t

/-- `dup2(oldfd, newfd)`. -/
def dup2
    (t : FdTable α)
    (oldfd newfd : Nat) :
    Option (FdTable α) :=
  if t.entry oldfd = none then none
  else if h : newfd < t.limit then
    if oldfd = newfd then some t else some (t.set newfd (t.entry oldfd) h)
  else none

/-- `pipe`: the numbers of the read end and of the write end. -/
def pipe
    (t : FdTable α)
    (readEnd writeEnd : α) :
    Option (Nat × Nat × FdTable α) :=
  match t.alloc readEnd with
  | none => none
  | some (r, t) =>
      match t.alloc writeEnd with
      | none => none
      | some (w, t) => some (r, w, t)

section Operations

variable {t t' : FdTable α} {fd oldfd newfd r w : Nat} {x y : α}

/-- What an opening call does: a number that was free, all lower ones in use. -/
theorem alloc_eq_some
    (h : t.alloc x = some (fd, t')) :
    t.entry fd = none ∧
    (∀ fd', fd' < fd → t.entry fd' ≠ none) ∧
    t'.entry = Function.update t.entry fd (some x) := by
  simp only [alloc] at h
  cases hfree : t.lowestFree with
  | none =>
      rw [hfree] at h
      cases h
  | some fd' =>
      rw [hfree] at h
      dsimp only at h
      split_ifs at h with hlt
      cases h
      obtain ⟨hnone, -, -, hbelow⟩ := firstFrom_eq_some_iff.mp hfree
      refine ⟨Option.isNone_iff_eq_none.mp hnone, fun j hj hnone' => ?_, rfl⟩
      have hused := hbelow j (Nat.zero_le j) hj
      rw [hnone'] at hused
      cases hused

theorem close_entry
    (t : FdTable α)
    (fd : Nat) :
    (t.close fd).entry = Function.update t.entry fd none := by
  simp only [close]
  split_ifs with h
  · rfl
  · have hnone := t.bounded fd (Nat.le_of_not_lt h)
    rw [← hnone, Function.update_eq_self]

/-- Afterwards both numbers refer to the same. -/
theorem dup2_eq_some
    (h : t.dup2 oldfd newfd = some t') :
    t'.entry = Function.update t.entry newfd (t.entry oldfd) := by
  simp only [dup2] at h
  split_ifs at h with hold hnew heq
  · cases h
    rw [heq, Function.update_eq_self]
  · cases h
    rfl

/-- The two ends of a pipe have different numbers, the read end the lower one. -/
theorem pipe_eq_some
    (h : t.pipe x y = some (r, w, t')) :
    t.entry r = none ∧ t.entry w = none ∧ r < w ∧
    (∀ fd, fd < r → t.entry fd ≠ none) ∧
    t'.entry = Function.update (Function.update t.entry r (some x)) w (some y) := by
  simp only [pipe] at h
  cases hr : t.alloc x with
  | none =>
      rw [hr] at h
      cases h
  | some p =>
      obtain ⟨r', t₁⟩ := p
      rw [hr] at h
      dsimp only at h
      cases hw : t₁.alloc y with
      | none =>
          rw [hw] at h
          cases h
      | some q =>
          obtain ⟨w', t₂⟩ := q
          rw [hw] at h
          cases h
          obtain ⟨hrfree, hrlow, hrentry⟩ := alloc_eq_some hr
          obtain ⟨hwfree, hwlow, hwentry⟩ := alloc_eq_some hw
          rw [hrentry] at hwfree hwentry
          have hne : w ≠ r := by
            rintro rfl
            simp at hwfree
          rw [Function.update_of_ne hne] at hwfree
          have hlt : r < w := by
            rcases Nat.lt_trichotomy r w with hlt | heq | hgt
            · exact hlt
            · exact absurd heq.symm hne
            · exact absurd hwfree (hrlow w hgt)
          exact ⟨hrfree, hwfree, hlt, hrlow, hwentry⟩

end Operations

end FdTable

end Foundation
end OsSeminars
