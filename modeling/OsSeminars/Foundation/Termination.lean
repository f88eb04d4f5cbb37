import Mathlib.Order.WellFounded
import Mathlib.Data.Nat.Basic
import Mathlib.Algebra.BigOperators.Group.List.Basic
import Mathlib.Algebra.Ring.Nat

/-!
# Foundation: infinite runs

A state diverges when some infinite run starts in it, and it terminates when
none does. A run is infinite if a set of states can never be left, and there is
no infinite run where every step lowers a measure.
-/

namespace OsSeminars
namespace Foundation

universe u

variable {σ : Type u}

/-- An infinite run starts in the state. -/
def Diverges
    (step : σ → σ → Prop)
    (s : σ) :
    Prop :=
  ∃ run : Nat → σ, run 0 = s ∧ ∀ k, step (run k) (run (k + 1))

/-- Every run that starts in the state is finite. -/
def Terminates
    (step : σ → σ → Prop)
    (s : σ) :
    Prop :=
  ¬ Diverges step s

variable {step : σ → σ → Prop} {I : σ → Prop} {s : σ}

/-- A measure that every step from a state of the invariant lowers. -/
theorem terminates_of_measure
    (measure : σ → Nat)
    (hkeep : ∀ s t, I s → step s t → I t)
    (hlower : ∀ s t, I s → step s t → measure t < measure s)
    (hs : I s) :
    Terminates step s := by
  rintro ⟨run, rfl, hrun⟩
  have hinv : ∀ k, I (run k) := by
    intro k
    induction k with
    | zero =>
        exact hs
    | succ k ih =>
        exact hkeep _ _ ih (hrun k)
  obtain ⟨k, hk⟩ :=
    WellFounded.not_rel_apply_succ (r := (· < ·)) (fun k => measure (run k))
  exact hk (hlower _ _ (hinv k) (hrun k))

/-- One party of many has changed. -/
theorem sum_map_set
    {β : Type u}
    {parties : List β}
    {i : Nat}
    {p : β}
    (hi : parties[i]? = some p)
    (measure : β → Nat)
    (q : β) :
    ((parties.set i q).map measure).sum + measure p =
      (parties.map measure).sum + measure q := by
  obtain ⟨hlt, rfl⟩ := List.getElem?_eq_some_iff.mp hi
  have hold : (parties.map measure).sum =
      ((parties.take i).map measure).sum + measure parties[i] +
        ((parties.drop (i + 1)).map measure).sum := by
    conv_lhs => rw [← List.take_append_drop i parties, List.drop_eq_getElem_cons hlt]
    simp only [List.map_append, List.map_cons, List.sum_append, List.sum_cons, Nat.add_assoc]
  rw [List.map_set, List.sum_set, List.length_map, if_pos hlt, hold, List.map_take,
    List.map_drop]
  omega

/-- A party that has come closer to its end brings all of them closer. -/
theorem sum_map_set_lt
    {β : Type u}
    {parties : List β}
    {i : Nat}
    {p q : β}
    {measure : β → Nat}
    (hi : parties[i]? = some p)
    (hlower : measure q < measure p) :
    ((parties.set i q).map measure).sum < (parties.map measure).sum := by
  have hsum := sum_map_set hi measure q
  omega

/-- A state without a step terminates. -/
theorem terminates_of_stuck
    (h : ∀ t, ¬ step s t) :
    Terminates step s := by
  rintro ⟨run, rfl, hrun⟩
  exact h _ (hrun 0)

/-- A run that can always be continued inside the invariant is infinite. -/
theorem diverges_of_progress
    (hprogress : ∀ s, I s → ∃ t, step s t ∧ I t)
    (hs : I s) :
    Diverges step s := by
  choose next hstep hnext using hprogress
  let run : Nat → { t // I t } := fun k =>
    Nat.rec ⟨s, hs⟩ (fun _ t => ⟨next t.1 t.2, hnext t.1 t.2⟩) k
  exact ⟨fun k => (run k).1, rfl, fun k => hstep (run k).1 (run k).2⟩

end Foundation
end OsSeminars
