import OsSeminars.Threads.ThreadsMutex
import Mathlib.Algebra.BigOperators.Group.List.Basic
import Mathlib.Data.List.Nodup
import Mathlib.Data.List.Perm.Basic
import Mathlib.Tactic.Ring

/-!
# `threads-mutex.c`: every cell of the ring

Each of the three statements maps the threads one to one onto the cells: the
indices are the rotations of the ring by one backwards, by none and by one
forwards, also at the ends of the ring and for rings of one or two cells.

The invariant keeps the list of additions in step with the program points, and
every cell at the sum of the additions it has received. A thread between the
load and the store of an addition has loaded the present value of the cell,
because the mutex keeps all other threads out.
-/

namespace OsSeminars
namespace Threads
namespace ThreadsMutex

open Foundation

section Ring

variable {c : Config}

theorem index_previous_zero
    (c : Config) :
    index c 0 .previous = c.k - 1 := by
  have hpos := c.k_pos
  have hlt := c.k_lt
  have hwrap :
      toSizeT ((toSizeT (((0 : Nat) : Int) - 1) : Int) + c.k) = c.k - 1 := by
    simp only [toSizeT, sizeMod]
    omega
  rw [index, hwrap]
  exact Nat.mod_eq_of_lt (by omega)

theorem index_previous_succ
    {i : Nat}
    (hi : i + 1 < c.k) :
    index c (i + 1) .previous = i := by
  have hlt := c.k_lt
  have hsum :
      toSizeT ((toSizeT (((i + 1 : Nat) : Int) - 1) : Int) + c.k) = i + c.k := by
    simp only [toSizeT, sizeMod]
    omega
  rw [index, hsum, Nat.add_mod_right]
  exact Nat.mod_eq_of_lt (by omega)

theorem index_following_last
    {i : Nat}
    (hi : i + 1 = c.k) :
    index c i .following = 0 := by
  have hlt := c.k_lt
  have hsum : toSizeT ((i : Int) + 1) = c.k := by
    simp only [toSizeT, sizeMod]
    omega
  rw [index, hsum, Nat.mod_self]

theorem index_following
    {i : Nat}
    (hi : i + 1 < c.k) :
    index c i .following = i + 1 := by
  have hlt := c.k_lt
  have hsum : toSizeT ((i : Int) + 1) = i + 1 := by
    simp only [toSizeT, sizeMod]
    omega
  rw [index, hsum]
  exact Nat.mod_eq_of_lt hi

/-- Every index that a thread uses is inside the array. -/
theorem index_lt
    (t : Fin c.k)
    (x : Addition) :
    index c t x < c.k := by
  cases x with
  | previous =>
      exact Nat.mod_lt _ c.k_pos
  | own =>
      exact t.isLt
  | following =>
      exact Nat.mod_lt _ c.k_pos

/-- Two threads never use the same cell in the same statement. -/
theorem index_injective
    {t u : Fin c.k}
    {x : Addition}
    (h : index c t x = index c u x) :
    t = u := by
  obtain ⟨i, hi⟩ := t
  obtain ⟨j, hj⟩ := u
  cases x with
  | previous =>
      cases i with
      | zero =>
          cases j with
          | zero =>
              rfl
          | succ j =>
              simp only [index_previous_zero, index_previous_succ hj] at h
              omega
      | succ i =>
          cases j with
          | zero =>
              simp only [index_previous_zero, index_previous_succ hi] at h
              omega
          | succ j =>
              simp only [index_previous_succ hi, index_previous_succ hj] at h
              simp [h]
  | own =>
      exact Fin.ext h
  | following =>
      rcases Nat.lt_or_eq_of_le (Nat.succ_le_of_lt hi) with hi' | hi' <;>
        rcases Nat.lt_or_eq_of_le (Nat.succ_le_of_lt hj) with hj' | hj'
      · simp only [index_following hi', index_following hj'] at h
        simpa using h
      · simp only [index_following hi', index_following_last hj'] at h
        omega
      · simp only [index_following_last hi', index_following hj'] at h
        omega
      · refine Fin.ext ?_
        dsimp only
        omega

/-- Every cell is used by some thread in every statement. -/
theorem exists_index_eq
    {j : Nat}
    (hj : j < c.k)
    (x : Addition) :
    ∃ t : Fin c.k, index c t x = j := by
  cases x with
  | previous =>
      rcases Nat.lt_or_eq_of_le (Nat.succ_le_of_lt hj) with hj' | hj'
      · exact ⟨⟨j + 1, hj'⟩, index_previous_succ hj'⟩
      · refine ⟨⟨0, c.k_pos⟩, ?_⟩
        dsimp only
        rw [index_previous_zero]
        omega
  | own =>
      exact ⟨⟨j, hj⟩, rfl⟩
  | following =>
      cases j with
      | zero =>
          have hlast : c.k - 1 < c.k := by
            omega
          exact ⟨⟨c.k - 1, hlast⟩, index_following_last (by dsimp only; omega)⟩
      | succ j =>
          exact ⟨⟨j, by omega⟩, index_following hj⟩

end Ring

/-- The statements before a statement. -/
def Addition.before : Addition → List Addition
  | .previous => []
  | .own => [.previous]
  | .following => [.previous, .own]

/-- The statements that a thread has completed. -/
def ThreadPc.done : ThreadPc → List Addition
  | .notCreated => []
  | .lock => []
  | .load x => x.before
  | .store x _ => x.before
  | .unlock => [.previous, .own, .following]
  | .returned => [.previous, .own, .following]

/-- Between `pthread_mutex_lock` and `pthread_mutex_unlock`. -/
def InCriticalSection : ThreadPc → Prop
  | .load _ => True
  | .store _ _ => True
  | .unlock => True
  | _ => False

theorem done_behind
    (x : Addition) :
    (behind x).done = x.before ++ [x] := by
  cases x <;> rfl

theorem inCriticalSection_behind
    (x : Addition) :
    InCriticalSection (behind x) := by
  cases x <;> trivial

theorem not_mem_before
    (x : Addition) :
    x ∉ x.before := by
  cases x <;> decide

theorem behind_ne_store
    (x y : Addition)
    (v : ℚ) :
    behind x ≠ .store y v := by
  cases x <;> simp [behind]

/-- What `main` knows about the threads. -/
def MainKnows
    {n : Nat}
    (threads : Fin n → ThreadPc) :
    MainPc → Prop
  | .threads loop => ForkJoin.Knows .notCreated .returned threads loop
  | .exited _ => True

structure Inv
    (c : Config)
    (s : State c)
    (added : List (Fin c.k × Addition)) :
    Prop where
  guards : s.mutex.Guards InCriticalSection s.threads
  nodup : added.Nodup
  mem_iff : ∀ t x, (t, x) ∈ added ↔ x ∈ (s.threads t).done
  loaded :
    ∀ t x v, s.threads t = .store x v → v = s.doubles (index c t x)
  cells : ∀ j, s.doubles j = ((additionsAt c added j).map (amount c)).sum
  main : MainKnows s.threads s.main

section Preservation

variable {c : Config} {s s' : State c} {added : List (Fin c.k × Addition)}

theorem inv_start
    (c : Config) :
    Inv c (start c) [] where
  guards := fun t => by simp [start, InCriticalSection, Monitor.initial]
  nodup := List.nodup_nil
  mem_iff := fun t x => by simp [start, ThreadPc.done]
  loaded := fun t x v h => by cases h
  cells := fun j => by simp [start, additionsAt]
  main := fun _ _ => rfl

/-- A thread that is neither new nor finished does not change what `main` knows. -/
theorem MainKnows.move
    {n : Nat}
    {threads : Fin n → ThreadPc}
    {main : MainPc}
    (h : MainKnows threads main)
    {t : Fin n}
    {pc : ThreadPc}
    (hidle : threads t ≠ .notCreated)
    (hdone : threads t ≠ .returned) :
    MainKnows (Function.update threads t pc) main := by
  cases main with
  | threads loop =>
      exact ForkJoin.Knows.move h hidle hdone
  | exited status =>
      trivial

/-- Moving a thread without an addition keeps the list and the cells. -/
theorem Inv.setPc
    (hinv : Inv c s added)
    {t : Fin c.k}
    {pc : ThreadPc}
    {m : Monitor (Fin c.k)}
    {main : MainPc}
    (hguards : m.Guards InCriticalSection (Function.update s.threads t pc))
    (hdone : pc.done = (s.threads t).done)
    (hloaded : ∀ x v, pc = .store x v → v = s.doubles (index c t x))
    (hmain : MainKnows (Function.update s.threads t pc) main) :
    Inv c { s.setPc t pc with mutex := m, main := main } added where
  guards := hguards
  nodup := hinv.nodup
  mem_iff := by
    intro u x
    rw [hinv.mem_iff]
    by_cases hu : u = t
    · subst hu
      simp [State.setPc, hdone]
    · simp [State.setPc, hu]
  loaded := by
    intro u x v hu
    by_cases hut : u = t
    · subst hut
      simp only [State.setPc, Function.update_self] at hu
      exact hloaded x v hu
    · simp only [State.setPc, Function.update_of_ne hut] at hu
      exact hinv.loaded u x v hu
  cells := hinv.cells
  main := hmain

theorem additionsAt_append
    (t : Fin c.k)
    (x : Addition)
    (j : Nat) :
    additionsAt c (added ++ [(t, x)]) j =
      additionsAt c added j ++ if index c t x = j then [x] else [] := by
  rw [additionsAt, List.filter_append, List.map_append]
  by_cases hj : index c t x = j
  · simp [additionsAt, hj]
  · simp [additionsAt, hj]

/-- The store of an addition. -/
theorem inv_store
    (hinv : Inv c s added)
    {t : Fin c.k}
    {x : Addition}
    {v : ℚ}
    (hpc : s.threads t = .store x v) :
    Inv c
      { s.setPc t (behind x) with
        doubles := s.doubles.store (index c t x) (v + amount c x) }
      (added ++ [(t, x)]) := by
  have hcrit : InCriticalSection (s.threads t) := by
    rw [hpc]
    trivial
  have hv := hinv.loaded t x v hpc
  refine
    { guards := ?_
      nodup := ?_
      mem_iff := ?_
      loaded := ?_
      cells := ?_
      main := ?_ }
  · exact hinv.guards.move
      (iff_of_true (inCriticalSection_behind x) hcrit)
  · have hnew : (t, x) ∉ added := by
      rw [hinv.mem_iff, hpc]
      exact not_mem_before x
    rw [List.nodup_append]
    refine ⟨hinv.nodup, List.nodup_singleton _, ?_⟩
    rintro p hp q hq rfl
    rw [List.mem_singleton] at hq
    exact hnew (hq ▸ hp)
  · intro u y
    rw [List.mem_append, hinv.mem_iff, List.mem_singleton, Prod.mk.injEq]
    by_cases hu : u = t
    · subst hu
      simp only [State.setPc, Function.update_self, done_behind, hpc]
      simp [ThreadPc.done]
    · simp [State.setPc, hu]
  · intro u y w hu
    by_cases hut : u = t
    · subst hut
      simp only [State.setPc, Function.update_self] at hu
      exact absurd hu (behind_ne_store x y w)
    · simp only [State.setPc, Function.update_of_ne hut] at hu
      have hcrit' : InCriticalSection (s.threads u) := by
        rw [hu]
        trivial
      exact absurd (hinv.guards.unique hcrit' hcrit) hut
  · intro j
    rw [additionsAt_append, List.map_append, List.sum_append, ← hinv.cells]
    by_cases hj : index c t x = j
    · subst hj
      simp [hv]
    · simp [hj, Memory.store_other (Ne.symm hj)]
  · exact hinv.main.move (by simp [hpc]) (by simp [hpc])

theorem inv_threadNext
    (hinv : Inv c s added)
    {t : Fin c.k}
    (h : threadNext s t = some s') :
    Inv c s' (recordAddition s (.thread t) added) := by
  cases hpc : s.threads t with
  | notCreated =>
      simp [threadNext, hpc] at h
  | lock =>
      simp only [threadNext, hpc, recordAddition] at h ⊢
      cases hlock : s.mutex.lock t with
      | none =>
          rw [hlock] at h
          cases h
      | some m =>
          rw [hlock] at h
          cases h
          obtain ⟨hfree, rfl⟩ := Monitor.lock_eq_some_iff.mp hlock
          exact hinv.setPc (hinv.guards.enter hfree rfl trivial)
            (by rw [hpc]; rfl) (fun x v hx => by cases hx)
            (hinv.main.move (by simp [hpc]) (by simp [hpc]))
  | load x =>
      simp only [threadNext, hpc, recordAddition, Option.some.injEq] at h ⊢
      subst h
      refine hinv.setPc (hinv.guards.move ?_) (by rw [hpc]; rfl) ?_
        (hinv.main.move (by simp [hpc]) (by simp [hpc]))
      · rw [hpc]
        exact Iff.rfl
      · intro y v hy
        cases hy
        rfl
  | store x v =>
      simp only [threadNext, hpc, recordAddition, Option.some.injEq] at h ⊢
      subst h
      exact inv_store hinv hpc
  | unlock =>
      simp only [threadNext, hpc, recordAddition] at h ⊢
      cases hunlock : s.mutex.unlock t with
      | none =>
          rw [hunlock] at h
          cases h
      | some m =>
          rw [hunlock] at h
          cases h
          obtain ⟨hheld, rfl⟩ := Monitor.unlock_eq_some_iff.mp hunlock
          exact hinv.setPc (hinv.guards.leave hheld rfl (fun hcrit => hcrit))
            (by rw [hpc]; rfl) (fun x v hx => by cases hx)
            (hinv.main.move (by simp [hpc]) (by simp [hpc]))
  | returned =>
      simp [threadNext, hpc] at h

/-- A step of `main` that starts no thread. -/
theorem Inv.setMain
    (hinv : Inv c s added)
    {main : MainPc}
    (hmain : MainKnows s.threads main) :
    Inv c { s with main := main } added :=
  { hinv with main := hmain }

theorem inv_mainNext
    (hinv : Inv c s added)
    {status : Int}
    (h : mainNext s status = some s') :
    Inv c s' added := by
  have hmain := hinv.main
  cases hpc : s.main with
  | threads loop =>
      rw [hpc] at hmain
      have hknows : ForkJoin.Knows .notCreated .returned s.threads loop := hmain
      cases loop with
      | create i =>
          simp only [mainNext, hpc] at h
          split_ifs at h with hi hstatus <;> cases h
          · exact hinv.setMain trivial
          · have hidle : s.threads ⟨i, hi⟩ = .notCreated :=
              hknows ⟨i, hi⟩ (Nat.le_refl i)
            refine hinv.setPc (hinv.guards.move ?_) (by rw [hidle]; rfl)
              (fun x v hx => by cases hx) ?_
            · rw [hidle]
              exact Iff.rfl
            · exact hknows.create hi
          · exact hinv.setMain
              (ForkJoin.knows_join_zero ThreadPc.notCreated .returned s.threads)
      | join i =>
          simp only [mainNext, hpc] at h
          split_ifs at h with hi hstatus hreturned <;> cases h
          · exact hinv.setMain trivial
          · exact hinv.setMain (hknows.join hi hreturned)
          · exact hinv.setMain (hknows.joined hi)
      | joined =>
          simp only [mainNext, hpc, Option.some.injEq] at h
          subst h
          exact hinv.setMain trivial
  | exited status =>
      simp [mainNext, hpc] at h

theorem inv_of_reachable
    (h : (systemWithAdditions c).Reachable (s, added)) :
    Inv c s added := by
  refine h.invariant (I := fun p => Inv c p.1 p.2) ?_ ?_
  · rintro ⟨s, added⟩ ⟨rfl, rfl⟩
    exact inv_start c
  · rintro ⟨s, added⟩ a ⟨s', added'⟩ hinv ⟨⟨-, hnext⟩, rfl⟩
    cases a with
    | main status =>
        exact inv_mainNext hinv hnext
    | thread t =>
        cases hmain : s.main with
        | threads loop =>
            simp only [next, hmain] at hnext
            exact inv_threadNext hinv hnext
        | exited status =>
            simp [next, hmain] at hnext

end Preservation

section Cells

variable {c : Config} {s : State c} {added : List (Fin c.k × Addition)}

/-- The additions that a cell has received are of different statements. -/
theorem Inv.nodup_additionsAt
    (hinv : Inv c s added)
    (j : Nat) :
    (additionsAt c added j).Nodup := by
  refine (hinv.nodup.filter _).map_on ?_
  rintro ⟨t, x⟩ ht ⟨u, y⟩ hu hxy
  dsimp only at hxy
  subst hxy
  have ht' := (List.mem_filter.mp ht).2
  have hu' := (List.mem_filter.mp hu).2
  simp only [decide_eq_true_eq] at ht' hu'
  rw [index_injective (ht'.trans hu'.symm)]

/-- When all threads have returned, a cell has received each addition. -/
theorem Inv.mem_additionsAt
    (hinv : Inv c s added)
    (hreturned : ∀ t, s.threads t = .returned)
    {j : Nat}
    (hj : j < c.k)
    (x : Addition) :
    x ∈ additionsAt c added j := by
  obtain ⟨t, ht⟩ := exists_index_eq hj x
  have hmem : (t, x) ∈ added := by
    rw [hinv.mem_iff, hreturned]
    cases x <;> decide
  refine List.mem_map.mpr ⟨(t, x), List.mem_filter.mpr ⟨hmem, ?_⟩, rfl⟩
  simpa using ht

theorem Inv.perm_additionsAt
    (hinv : Inv c s added)
    (hreturned : ∀ t, s.threads t = .returned)
    {j : Nat}
    (hj : j < c.k) :
    (additionsAt c added j).Perm [.previous, .own, .following] := by
  have hall : ([.previous, .own, .following] : List Addition).Nodup := by
    decide
  refine (List.perm_ext_iff_of_nodup (hinv.nodup_additionsAt j) hall).mpr ?_
  intro x
  refine iff_of_true (hinv.mem_additionsAt hreturned hj x) ?_
  cases x <;> decide

/-- Every index is inside the array, and when all threads are joined every cell
has received exactly one addition of each of the three statements, so that it
holds `3 * N`. -/
theorem cells_of_additions
    (c : Config)
    (s : State c)
    (added : List (Fin c.k × Addition))
    (h : (systemWithAdditions c).Reachable (s, added)) :
    (∀ (t : Fin c.k) x, index c t x < c.k) ∧
    (s.main = .threads .joined →
      ∀ j, j < c.k →
        (additionsAt c added j).Perm [.previous, .own, .following] ∧
        s.doubles j = 3 * c.N) := by
  have hinv := inv_of_reachable h
  refine ⟨index_lt, fun hjoined j hj => ?_⟩
  have hreturned : ∀ t, s.threads t = .returned := by
    have hmain := hinv.main
    rw [hjoined] at hmain
    exact hmain
  have hperm := hinv.perm_additionsAt hreturned hj
  refine ⟨hperm, ?_⟩
  calc s.doubles j
      = ((additionsAt c added j).map (amount c)).sum := hinv.cells j
    _ = (([.previous, .own, .following] : List Addition).map (amount c)).sum :=
        (hperm.map _).sum_eq
    _ = 3 * c.N := by
        simp only [List.map_cons, List.map_nil, List.sum_cons, List.sum_nil, amount]
        ring

/-- A ring of two cells, where the neighbours of a cell coincide. -/
def twoCells : Config where
  N := 100
  k := 2
  k_pos := by decide
  k_lt := by decide

/-- All steps of a thread. -/
def wholeThread
    (t : Fin twoCells.k) :
    List (Label twoCells) :=
  List.replicate 8 (.thread t)

/-- The second thread runs first. -/
def secondFirst : List (Label twoCells) :=
  List.replicate 3 (.main 0) ++ wholeThread ⟨1, by decide⟩ ++
    wholeThread ⟨0, by decide⟩ ++ List.replicate 3 (.main 0)

theorem cells_of_additions_twoCells :
    ∃ s : State twoCells,
      (system twoCells).Reachable s ∧ s.main = .threads .joined ∧
      s.doubles 0 = 300 ∧ s.doubles 1 = 300 := by
  have hstart : (system twoCells).Reachable (start twoCells) :=
    TransitionSystem.Reachable.init rfl
  have hrun :=
    TransitionSystem.exists_reachable_of_exec
      secondFirst
      (fun s => decide (s.main = .threads .joined))
      hstart
      (by decide)
      (by decide +kernel)
  obtain ⟨s, hs, htest⟩ := hrun
  have hjoined := of_decide_eq_true htest
  obtain ⟨added, hadded⟩ :
      ∃ added, (systemWithAdditions twoCells).Reachable (s, added) :=
    TransitionSystem.Reachable.exists_history hs
  have hcells := (cells_of_additions twoCells s added hadded).2 hjoined
  refine ⟨s, hs, hjoined, ?_, ?_⟩
  · rw [(hcells 0 (by decide)).2]
    norm_num [twoCells]
  · rw [(hcells 1 (by decide)).2]
    norm_num [twoCells]

end Cells

end ThreadsMutex
end Threads
end OsSeminars
