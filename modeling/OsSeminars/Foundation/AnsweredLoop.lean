import Mathlib.Data.Set.Finite.Lattice

/-!
# Foundation: loops that ask their environment

Every iteration of such a loop receives one answer of the environment, such as
the result of a system call, and either continues or returns. The answers are an
infinite schedule, of which a loop that returns uses a finite part.

There are three rules. An assertion that every iteration keeps holds whenever the
loop is running, and what the iterations guarantee on return holds when it has
returned. A loop returns if only finitely many of its iterations fail to
decrease a measure of its state. Two loops whose iterations lead from related
states to related states go on side by side.
-/

namespace OsSeminars
namespace Foundation

universe u v w x

/-- What one iteration leaves. -/
inductive LoopState
    (σ : Type u)
    (ρ : Type v)
  | running (s : σ)
  | returned (r : ρ) (s : σ)

namespace LoopState

variable {σ : Type u} {ρ : Type v} {ι : Type w}

/-- The loop after a number of iterations, each with its own answer. -/
def after
    (body : ι → σ → LoopState σ ρ)
    (answers : Nat → ι)
    (s : σ) :
    Nat → LoopState σ ρ
  | 0 => running s
  | k + 1 =>
      match after body answers s k with
      | running s => body (answers k) s
      | returned r s => returned r s

/-- `I` holds of a running loop and `Q` of a returned one. -/
def Holds
    (I : σ → Prop)
    (Q : ρ → σ → Prop) :
    LoopState σ ρ → Prop
  | running s => I s
  | returned r s => Q r s

variable {body : ι → σ → LoopState σ ρ} {answers : Nat → ι} {s s' : σ}
variable {k : Nat}

theorem after_succ_of_running
    (h : after body answers s k = running s') :
    after body answers s (k + 1) = body (answers k) s' := by
  simp only [after, h]

theorem after_succ_of_returned
    {r : ρ}
    (h : after body answers s k = returned r s') :
    after body answers s (k + 1) = returned r s' := by
  simp only [after, h]

theorem Holds.imp
    {I I' : σ → Prop}
    {Q Q' : ρ → σ → Prop}
    {l : LoopState σ ρ}
    (h : l.Holds I Q)
    (hI : ∀ s, I s → I' s)
    (hQ : ∀ r s, Q r s → Q' r s) :
    l.Holds I' Q' := by
  cases l with
  | running s =>
      exact hI s h
  | returned r s =>
      exact hQ r s h

/-- What every iteration keeps holds after any number of iterations. -/
theorem holds_after
    {I : σ → Prop}
    {Q : ρ → σ → Prop}
    (hstart : I s)
    (hbody : ∀ k s', after body answers s k = running s' → I s' →
      (body (answers k) s').Holds I Q)
    (k : Nat) :
    (after body answers s k).Holds I Q := by
  induction k with
  | zero =>
      exact hstart
  | succ k ih =>
      cases h : after body answers s k with
      | running s' =>
          rw [after_succ_of_running h]
          rw [h] at ih
          exact hbody k s' h ih
      | returned r s' =>
          rw [after_succ_of_returned h]
          rw [h] at ih
          exact ih

/-- Two loops are at one point: both are running, in related states, or both have
returned one value. -/
def Related
    {τ : Type x}
    (R : σ → τ → Prop) :
    LoopState σ ρ → LoopState τ ρ → Prop
  | running s, running t => R s t
  | returned r _, returned r' _ => r = r'
  | _, _ => False

/-- Loops whose iterations are related are related after any number of iterations. -/
theorem related_after
    {τ : Type x}
    {R : σ → τ → Prop}
    {ι' : Type w}
    {body' : ι' → τ → LoopState τ ρ}
    {answers' : Nat → ι'}
    {t : τ}
    (hstart : R s t)
    (hbody : ∀ k s' t', after body answers s k = running s' → R s' t' →
      Related R (body (answers k) s') (body' (answers' k) t'))
    (k : Nat) :
    Related R (after body answers s k) (after body' answers' t k) := by
  induction k with
  | zero =>
      exact hstart
  | succ k ih =>
      cases h : after body answers s k with
      | running s' =>
          cases h' : after body' answers' t k with
          | running t' =>
              rw [h, h'] at ih
              rw [after_succ_of_running h, after_succ_of_running h']
              exact hbody k s' t' h ih
          | returned r' t' =>
              rw [h, h'] at ih
              exact ih.elim
      | returned r s' =>
          cases h' : after body' answers' t k with
          | running t' =>
              rw [h, h'] at ih
              exact ih.elim
          | returned r' t' =>
              rw [h, h'] at ih
              rw [after_succ_of_returned h, after_succ_of_returned h']
              exact ih

/-- A loop that has returned stays as it is. -/
theorem after_add_of_returned
    {r : ρ}
    (h : after body answers s k = returned r s')
    (j : Nat) :
    after body answers s (k + j) = returned r s' := by
  induction j with
  | zero =>
      exact h
  | succ j ih =>
      exact after_succ_of_returned ih

/-- A loop returns when all but finitely many answers let it make progress. -/
theorem exists_returned
    {idle : ι → Prop}
    (size : σ → Nat)
    (hidle : {k | idle (answers k)}.Finite)
    (hprogress : ∀ k s' s'', after body answers s k = running s' →
      body (answers k) s' = running s'' → idle (answers k) ∨ size s'' < size s') :
    ∃ k r s', after body answers s k = returned r s' := by
  by_contra hnever
  have hrunning : ∀ k, ∃ s', after body answers s k = running s' := by
    intro k
    cases h : after body answers s k with
    | running s' =>
        exact ⟨s', rfl⟩
    | returned r s' =>
        exact absurd ⟨k, r, s', h⟩ hnever
  obtain ⟨last, hlast⟩ := hidle.bddAbove
  -- Behind the last idle answer the measure decreases in every iteration.
  have hdecrease : ∀ j s₀ s₁,
      after body answers s (last + 1) = running s₀ →
      after body answers s (last + 1 + j) = running s₁ →
      size s₁ + j ≤ size s₀ := by
    intro j
    induction j with
    | zero =>
        intro s₀ s₁ h₀ h₁
        rw [Nat.add_zero, h₀] at h₁
        cases h₁
        exact Nat.le_refl _
    | succ j ih =>
        intro s₀ s₁ h₀ h₁
        obtain ⟨s', h'⟩ := hrunning (last + 1 + j)
        have hbody : body (answers (last + 1 + j)) s' = running s₁ := by
          rw [← after_succ_of_running h']
          exact h₁
        rcases hprogress _ _ _ h' hbody with hquiet | hless
        · have hbound := hlast hquiet
          omega
        · have hprev := ih s₀ s' h₀ h'
          omega
  obtain ⟨s₀, h₀⟩ := hrunning (last + 1)
  obtain ⟨s₁, h₁⟩ := hrunning (last + 1 + (size s₀ + 1))
  have hlong := hdecrease (size s₀ + 1) s₀ s₁ h₀ h₁
  omega

end LoopState

end Foundation
end OsSeminars
