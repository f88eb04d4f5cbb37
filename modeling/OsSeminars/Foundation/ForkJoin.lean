import Mathlib.Data.Fin.Basic
import Mathlib.Logic.Function.Basic

/-!
# Foundation: starting and joining threads

A main thread that starts `n` threads in order and then joins them in order
knows, at each point of its two loops, that some of them have not been started
yet or that some of them have returned. This knowledge survives the steps of the
threads themselves, because a thread neither starts itself nor moves on once it
has returned.
-/

namespace OsSeminars
namespace Foundation

universe u

/-- The loops of the main thread. -/
inductive ForkJoin
  | create (i : Nat)
  | join (i : Nat)
  | joined
  deriving DecidableEq

namespace ForkJoin

variable {π : Type u} {n : Nat}

/-- What the main thread knows when `idle` threads are those not yet started and
`done` ones those that have returned. -/
def Knows
    (idle done : π)
    (threads : Fin n → π) :
    ForkJoin → Prop
  | create i => ∀ t : Fin n, i ≤ t.val → threads t = idle
  | join i => ∀ t : Fin n, t.val < i → threads t = done
  | joined => ∀ t, threads t = done

variable {idle done pc : π} {threads : Fin n → π} {main : ForkJoin} {i : Nat}

/-- A step of a thread that is running. -/
theorem Knows.move
    (h : Knows idle done threads main)
    {t : Fin n}
    (hidle : threads t ≠ idle)
    (hdone : threads t ≠ done) :
    Knows idle done (Function.update threads t pc) main := by
  cases main with
  | create i =>
      intro u hu
      have hne : u ≠ t := by
        rintro rfl
        exact hidle (h u hu)
      rw [Function.update_of_ne hne]
      exact h u hu
  | join i =>
      intro u hu
      have hne : u ≠ t := by
        rintro rfl
        exact hdone (h u hu)
      rw [Function.update_of_ne hne]
      exact h u hu
  | joined =>
      exact absurd (h t) hdone

/-- The main thread starts the next thread. -/
theorem Knows.create
    (h : Knows idle done threads (.create i))
    (hi : i < n) :
    Knows idle done (Function.update threads ⟨i, hi⟩ pc) (.create (i + 1)) := by
  intro u hu
  have hne : u ≠ ⟨i, hi⟩ := by
    rintro rfl
    exact absurd hu (Nat.not_succ_le_self i)
  rw [Function.update_of_ne hne]
  exact h u (Nat.le_of_succ_le hu)

/-- The loop over all threads has come to its end. -/
theorem knows_join_zero
    (idle done : π)
    (threads : Fin n → π) :
    Knows idle done threads (join 0) :=
  fun _ hu => absurd hu (Nat.not_lt_zero _)

/-- The main thread has seen the next thread return. -/
theorem Knows.join
    (h : Knows idle done threads (.join i))
    (hi : i < n)
    (hreturned : threads ⟨i, hi⟩ = done) :
    Knows idle done threads (.join (i + 1)) := by
  intro u hu
  rcases Nat.lt_or_eq_of_le (Nat.le_of_lt_succ hu) with hlt | heq
  · exact h u hlt
  · have hu' : u = ⟨i, hi⟩ := Fin.ext heq
    rw [hu']
    exact hreturned

theorem Knows.joined
    (h : Knows idle done threads (.join i))
    (hi : ¬ i < n) :
    Knows idle done threads .joined :=
  fun u => h u (by omega)

end ForkJoin

end Foundation
end OsSeminars
