import Mathlib.Data.List.Basic
import Mathlib.Logic.Relation

/-!
# Foundation: labelled transition systems

A program running in an environment is a labelled transition system: a set of
initial states and a relation `step s a t`. The label `a` carries whatever the
environment chooses in that step (which thread runs, what a system call
returns), so the program part of a step is usually a function of the state and
the label, and the environment part a contract on labels.

This module develops what all later modules use:

* reachable states and the invariant rule;
* programs given by a partial step function together with a contract;
* history variables, which record facts about a run without changing it;
* finite runs from one state to another, composed along loops;
* paths, and the rule that compares a property of every visited state with a
  condition on every step taken.
-/

namespace OsSeminars
namespace Foundation

universe u v w

/-- Initial states and labelled steps. -/
structure TransitionSystem (σ : Type u) (α : Type v) where
  init : σ → Prop
  step : σ → α → σ → Prop

namespace TransitionSystem

variable {σ : Type u} {α : Type v} {η : Type w}

section Reachability

variable (T : TransitionSystem σ α)

/-- States that some run of the system visits. -/
inductive Reachable : σ → Prop
  | init {s : σ} :
      T.init s →
      Reachable s
  | step {s t : σ} {a : α} :
      Reachable s →
      T.step s a t →
      Reachable t

/-- A label is enabled when the system can take a step with it. -/
def Enabled (s : σ) (a : α) : Prop :=
  ∃ t, T.step s a t

variable {T}

/-- The invariant rule: what holds initially and is kept by every step holds
in every reachable state. -/
theorem Reachable.invariant
    {I : σ → Prop}
    (hinit : ∀ s, T.init s → I s)
    (hstep : ∀ s a t, I s → T.step s a t → I t)
    {s : σ}
    (h : T.Reachable s) :
    I s := by
  induction h with
  | init h₀ =>
      exact hinit _ h₀
  | step _ hst ih =>
      exact hstep _ _ _ ih hst

end Reachability

section Programs

/--
A program given by a partial step function, run in an environment that obeys
the contract `allowed`.
-/
def ofProgram
    (init : σ → Prop)
    (allowed : σ → α → Prop)
    (next : σ → α → Option σ) :
    TransitionSystem σ α where
  init := init
  step s a t := allowed s a ∧ next s a = some t

/-- A program can take a step when the contract allows it and it is defined. -/
theorem enabled_ofProgram_iff
    {init : σ → Prop}
    {allowed : σ → α → Prop}
    {next : σ → α → Option σ}
    {s : σ}
    {a : α} :
    (ofProgram init allowed next).Enabled s a ↔
      allowed s a ∧ (next s a).isSome = true := by
  constructor
  · rintro ⟨t, hallowed, hnext⟩
    exact ⟨hallowed, by rw [hnext]; rfl⟩
  · rintro ⟨hallowed, hsome⟩
    obtain ⟨t, ht⟩ := Option.isSome_iff_exists.mp hsome
    exact ⟨t, hallowed, ht⟩

/-- Run a partial step function along a list of labels. -/
def exec
    (next : σ → α → Option σ) :
    σ → List α → Option σ
  | s, [] => some s
  | s, a :: as =>
      match next s a with
      | none => none
      | some t => exec next t as

/-- A measure that every step lowers bounds the length of every run. -/
theorem length_le_of_exec
    {next : σ → α → Option σ}
    {measure : σ → Nat}
    (hstep : ∀ s a t, next s a = some t → measure t < measure s)
    (as : List α)
    {s t : σ}
    (hexec : exec next s as = some t) :
    as.length + measure t ≤ measure s := by
  induction as generalizing s with
  | nil =>
      cases hexec
      simp
  | cons a as ih =>
      simp only [exec] at hexec
      cases hnext : next s a with
      | none =>
          simp [hnext] at hexec
      | some u =>
          rw [hnext] at hexec
          have hrest := ih hexec
          have hlower := hstep s a u hnext
          rw [List.length_cons]
          omega

/-- Check the contract along the same run. -/
def allowedAlong
    (allowed : σ → α → Prop)
    [∀ s a, Decidable (allowed s a)]
    (next : σ → α → Option σ) :
    σ → List α → Bool
  | _, [] => true
  | s, a :: as =>
      decide (allowed s a) &&
        match next s a with
        | none => false
        | some t => allowedAlong allowed next t as

/-- A run that executes and keeps the contract ends in a reachable state. -/
theorem reachable_of_exec
    {init : σ → Prop}
    {allowed : σ → α → Prop}
    [∀ s a, Decidable (allowed s a)]
    {next : σ → α → Option σ}
    (as : List α)
    {s t : σ}
    (hs : (ofProgram init allowed next).Reachable s)
    (hallowed : allowedAlong allowed next s as = true)
    (hexec : exec next s as = some t) :
    (ofProgram init allowed next).Reachable t := by
  induction as generalizing s with
  | nil =>
      simp only [exec, Option.some.injEq] at hexec
      subst hexec
      exact hs
  | cons a as ih =>
      simp only [exec] at hexec
      simp only [allowedAlong, Bool.and_eq_true, decide_eq_true_eq] at hallowed
      obtain ⟨ha, hrest⟩ := hallowed
      cases hnext : next s a with
      | none =>
          simp [hnext] at hexec
      | some u =>
          rw [hnext] at hexec hrest
          exact ih (Reachable.step hs ⟨ha, hnext⟩) hrest hexec

/-- An executed run whose last state passes a test reaches such a state. -/
theorem exists_reachable_of_exec
    {init : σ → Prop}
    {allowed : σ → α → Prop}
    [∀ s a, Decidable (allowed s a)]
    {next : σ → α → Option σ}
    (as : List α)
    (test : σ → Bool)
    {s : σ}
    (hs : (ofProgram init allowed next).Reachable s)
    (hallowed : allowedAlong allowed next s as = true)
    (htest : (exec next s as).any test = true) :
    ∃ t, (ofProgram init allowed next).Reachable t ∧ test t = true := by
  cases hexec : exec next s as with
  | none =>
      simp [hexec] at htest
  | some t =>
      rw [hexec] at htest
      exact ⟨t, reachable_of_exec as hs hallowed hexec, htest⟩

end Programs

section Histories

/--
Add a history variable. The record of a step depends on the source state and
the label, and no step of the system reads it.
-/
def withHistory
    (T : TransitionSystem σ α)
    (h₀ : η)
    (record : σ → α → η → η) :
    TransitionSystem (σ × η) α where
  init p := T.init p.1 ∧ p.2 = h₀
  step p a q := T.step p.1 a q.1 ∧ q.2 = record p.1 a p.2

variable {T : TransitionSystem σ α} {h₀ : η} {record : σ → α → η → η}

/-- A history variable excludes no run: every reachable state has a history. -/
theorem Reachable.exists_history
    {s : σ}
    (h : T.Reachable s) :
    ∃ x : η, (T.withHistory h₀ record).Reachable (s, x) := by
  induction h with
  | init hs =>
      exact ⟨h₀, Reachable.init ⟨hs, rfl⟩⟩
  | @step s t a _ hst ih =>
      obtain ⟨x, hx⟩ := ih
      exact ⟨record s a x, Reachable.step hx ⟨hst, rfl⟩⟩

end Histories

section Runs

variable (T : TransitionSystem σ α)

/-- Some steps of the system lead from the first state to the second. -/
def Runs : σ → σ → Prop :=
  Relation.ReflTransGen fun s t => ∃ a, T.step s a t

variable {T}

theorem Runs.refl
    {s : σ} :
    T.Runs s s :=
  Relation.ReflTransGen.refl

theorem Runs.trans
    {s t u : σ}
    (hst : T.Runs s t)
    (htu : T.Runs t u) :
    T.Runs s u :=
  Relation.ReflTransGen.trans hst htu

/-- A run that begins with a given step. -/
theorem Runs.head
    {s t u : σ}
    {a : α}
    (hst : T.step s a t)
    (htu : T.Runs t u) :
    T.Runs s u :=
  Relation.ReflTransGen.head ⟨a, hst⟩ htu

/-- A loop of `n` rounds, each of which is a run. -/
theorem runs_rounds
    {f : Nat → σ}
    {n : Nat}
    (hround : ∀ k, k < n → T.Runs (f k) (f (k + 1))) :
    T.Runs (f 0) (f n) := by
  induction n with
  | zero =>
      exact Runs.refl
  | succ n ih =>
      have hbefore := ih fun k hk => hround k (Nat.lt_succ_of_lt hk)
      exact hbefore.trans (hround n (Nat.lt_succ_self n))

theorem Reachable.runs
    {s t : σ}
    (hs : T.Reachable s)
    (hst : T.Runs s t) :
    T.Reachable t := by
  induction hst with
  | refl =>
      exact hs
  | tail _ hstep ih =>
      obtain ⟨a, ha⟩ := hstep
      exact Reachable.step ih ha

/-- A reachable state is at the end of a run from an initial state. -/
theorem Reachable.exists_runs
    {t : σ}
    (ht : T.Reachable t) :
    ∃ s, T.init s ∧ T.Runs s t := by
  induction ht with
  | init hs =>
      exact ⟨_, hs, Runs.refl⟩
  | step _ hst ih =>
      obtain ⟨s, hs, hruns⟩ := ih
      exact ⟨s, hs, hruns.trans (Runs.head hst Runs.refl)⟩

/-- If every state of the invariant that is not at the goal has a step inside of it that
lowers a measure, then a run leads from there to the goal. -/
theorem exists_runs_of_measure
    {I P : σ → Prop}
    (measure : σ → Nat)
    (hprogress : ∀ s, I s → P s ∨ ∃ a t, T.step s a t ∧ I t ∧ measure t < measure s)
    {s : σ}
    (hs : I s) :
    ∃ t, T.Runs s t ∧ I t ∧ P t := by
  induction hn : measure s using Nat.strongRecOn generalizing s with
  | ind n ih =>
      rcases hprogress s hs with hgoal | ⟨a, u, hstep, hu, hlower⟩
      · exact ⟨s, Runs.refl, hs, hgoal⟩
      · obtain ⟨t, hrun, ht, hgoal⟩ := ih (measure u) (hn ▸ hlower) hu rfl
        exact ⟨t, Runs.head hstep hrun, ht, hgoal⟩

end Runs

section Paths

variable (T : TransitionSystem σ α)

/-- The list of labels and states is a run that starts at the given state. -/
def Path : σ → List (α × σ) → Prop
  | _, [] => True
  | s, (a, t) :: path => T.step s a t ∧ Path t path

/-- Every step of a run is taken under the condition `C`. -/
def StepsMeet
    (C : σ → α → Prop) :
    σ → List (α × σ) → Prop
  | _, [] => True
  | s, (a, t) :: path => C s a ∧ StepsMeet C t path

instance instDecidableStepsMeet
    {C : σ → α → Prop}
    [∀ s a, Decidable (C s a)] :
    (s : σ) → (path : List (α × σ)) → Decidable (StepsMeet C s path)
  | _, [] => inferInstanceAs (Decidable True)
  | s, (a, t) :: path =>
      have : Decidable (StepsMeet C t path) :=
        instDecidableStepsMeet t path
      inferInstanceAs (Decidable (C s a ∧ StepsMeet C t path))

variable {T}

/--
If, in the states of an invariant, one step from a state with `P` meets the
condition exactly when it leads to a state with `P`, then a run meets the
condition throughout exactly when all states it visits have `P`.
-/
theorem forall_visited_iff_stepsMeet
    {I P : σ → Prop}
    {C : σ → α → Prop}
    (hI : ∀ s a t, I s → T.step s a t → I t)
    (hC : ∀ s a t, I s → P s → T.step s a t → (C s a ↔ P t))
    {s : σ}
    {path : List (α × σ)}
    (hs : I s)
    (hP : P s)
    (hpath : T.Path s path) :
    (∀ t ∈ path.map Prod.snd, P t) ↔ StepsMeet C s path := by
  induction path generalizing s with
  | nil =>
      simp [StepsMeet]
  | cons q path ih =>
      obtain ⟨a, t⟩ := q
      obtain ⟨hst, htail⟩ := hpath
      have hstep := hC s a t hs hP hst
      simp only [List.map_cons, List.forall_mem_cons, StepsMeet]
      constructor
      · rintro ⟨ht, hrest⟩
        exact ⟨hstep.mpr ht, (ih (hI s a t hs hst) ht htail).mp hrest⟩
      · rintro ⟨ha, hrest⟩
        have ht := hstep.mp ha
        exact ⟨ht, (ih (hI s a t hs hst) ht htail).mpr hrest⟩

/-- The path of a run that executes a list of labels with a history. -/
def historyPath
    (next : σ → α → Option σ)
    (record : σ → α → η → η) :
    σ → η → List α → List (α × (σ × η))
  | _, _, [] => []
  | s, x, a :: as =>
      match next s a with
      | none => []
      | some t =>
          (a, (t, record s a x)) :: historyPath next record t (record s a x) as

/-- An executed run that keeps the contract is a path of the system. -/
theorem path_of_exec
    {init : σ → Prop}
    {allowed : σ → α → Prop}
    [∀ s a, Decidable (allowed s a)]
    {next : σ → α → Option σ}
    {h₀ : η}
    {record : σ → α → η → η}
    (as : List α)
    (s : σ)
    (x : η)
    (hallowed : allowedAlong allowed next s as = true) :
    ((ofProgram init allowed next).withHistory h₀ record).Path (s, x)
      (historyPath next record s x as) := by
  induction as generalizing s x with
  | nil =>
      trivial
  | cons a as ih =>
      simp only [allowedAlong, Bool.and_eq_true, decide_eq_true_eq] at hallowed
      obtain ⟨ha, hrest⟩ := hallowed
      unfold historyPath
      cases hnext : next s a with
      | none =>
          trivial
      | some t =>
          rw [hnext] at hrest
          exact ⟨⟨⟨ha, hnext⟩, rfl⟩, ih t (record s a x) hrest⟩

end Paths

end TransitionSystem

end Foundation
end OsSeminars
