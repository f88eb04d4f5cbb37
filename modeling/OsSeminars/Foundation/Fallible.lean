import Mathlib.Data.List.Basic
import Mathlib.Data.List.Forall2

/-!
# Foundation: computations that may fail

A sequence of computations returns a value exactly when each of them does. Read as
an equivalence this takes a program apart into its calls, one equation for each.
-/

namespace OsSeminars
namespace Foundation

universe u v

variable {ε : Type v} {α β : Type u}

theorem except_bind_eq_ok_iff
    {x : Except ε α}
    {f : α → Except ε β}
    {b : β} :
    x >>= f = .ok b ↔ ∃ a, x = .ok a ∧ f a = .ok b := by
  constructor
  · intro h
    cases x with
    | error e => cases h
    | ok a => exact ⟨a, rfl, h⟩
  · rintro ⟨a, rfl, h⟩
    exact h

/-- A list is processed when every element is, and the results belong to the
elements one by one. -/
theorem mapM_eq_ok_iff
    {f : α → Except ε β}
    {xs : List α}
    {ys : List β} :
    xs.mapM f = .ok ys ↔ List.Forall₂ (fun x y => f x = .ok y) xs ys := by
  induction xs generalizing ys with
  | nil =>
      rw [List.mapM_nil, List.forall₂_nil_left_iff]
      constructor
      · intro h
        cases h
        rfl
      · rintro rfl
        rfl
  | cons x xs ih =>
      rw [List.mapM_cons, List.forall₂_cons_left_iff, except_bind_eq_ok_iff]
      constructor
      · rintro ⟨y, hy, h⟩
        obtain ⟨rest, hrest, h⟩ := except_bind_eq_ok_iff.mp h
        cases h
        exact ⟨y, rest, hy, ih.mp hrest, rfl⟩
      · rintro ⟨y, rest, hy, hrest, rfl⟩
        exact ⟨y, hy, except_bind_eq_ok_iff.mpr ⟨rest, ih.mpr hrest, rfl⟩⟩

end Foundation
end OsSeminars
