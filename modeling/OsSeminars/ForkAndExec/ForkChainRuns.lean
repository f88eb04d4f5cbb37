import OsSeminars.Foundation.Termination
import OsSeminars.ForkAndExec.ForkChain

/-!
# 13-fork-and-exec/11-0.c: the end of the chain

When a call of `fork` has failed, the process that made it is the last one, and all
others wait for their children. It prints the number of processes and ends, and then one
after another its parents end.
-/

namespace OsSeminars
namespace ForkAndExec
namespace ForkChain

open Foundation

section Refused

variable {ids : ProcessTable.Ids} {s t : State} {i j k : Nat} {p : Process}

/-- How many steps a process is in front of its `return` if its `fork` has failed. -/
def stepsLeft :
    Pc → Nat
  | .fork => 5
  | .count => 4
  | .loop => 3
  | .branch => 2
  | .waitpid => 1
  | .printf => 1
  | .return0 => 0

/-- A process ends by a step of its own and a step of its parent. -/
def remaining
    (p : Process) :
    Nat :=
  match p.status with
  | .running => stepsLeft p.memory.pc + 2
  | .zombie => 1
  | .reaped => 0

def remainingOfAll
    (s : State) :
    Nat :=
  (s.table.map remaining).sum

/-- The processes that have not ended. -/
def alive
    (s : State) :
    Nat :=
  s.table.countP fun p => p.status = .running

theorem stepsLeft_localNext
    {m m' : Main}
    (hm : localNext m = some m')
    (hfork : m'.pc ≠ .fork) :
    stepsLeft m'.pc < stepsLeft m.pc := by
  obtain ⟨pc, processes, pid, output⟩ := m
  cases pc with
  | count =>
      cases hm
      exact Nat.lt_succ_self 3
  | loop =>
      simp only [localNext, Option.some.injEq] at hm
      subst hm
      by_cases hchild : pid = 0
      · exact absurd (if_pos hchild) hfork
      · simp [hchild, stepsLeft]
  | branch =>
      simp only [localNext, Option.some.injEq] at hm
      subst hm
      dsimp only
      split_ifs <;> simp [stepsLeft]
  | printf =>
      cases hm
      exact Nat.lt_succ_self 0
  | fork | waitpid | return0 =>
      cases hm

theorem remaining_of_running
    (hstatus : p.status = .running) :
    remaining p = stepsLeft p.memory.pc + 2 := by
  rw [remaining, hstatus]

theorem remaining_setMemory_lt
    {table : List Process}
    (hi : table[i]? = some p)
    (hstatus : p.status = .running)
    {m : Main}
    (hm : stepsLeft m.pc < stepsLeft p.memory.pc) :
    ((setMemory table i p m).map remaining).sum < (table.map remaining).sum := by
  refine sum_map_set_lt hi ?_
  have hnew := remaining_of_running (p := { p with memory := m }) hstatus
  rw [hnew, remaining_of_running hstatus]
  exact Nat.add_lt_add_right hm 2

/-- Behind a call of `fork` that has failed nobody forks again. -/
theorem Chain.no_fork
    (h : Chain ids true s)
    (i : Nat)
    (result : Option Nat) :
    next ids s (.fork i result) = none := by
  rw [next]
  split
  · rfl
  · next p hi =>
      split_ifs with hstatus
      · unfold forkNext
        rw [if_neg]
        intro hpc
        cases ((h.stages i p hi).at_fork hpc).1
      · rfl

theorem Chain.lower
    (h : Chain ids true s)
    {a : Label}
    (hnext : next ids s a = some t) :
    Chain ids true t ∧ remainingOfAll t < remainingOfAll s := by
  cases a with
  | fork i result =>
      rw [h.no_fork i result] at hnext
      cases hnext
  | step i =>
      rw [next] at hnext
      split at hnext
      · cases hnext
      · next p hi =>
          split_ifs at hnext with hstatus
          have hchain := h.step hi hstatus hnext
          refine ⟨hchain, ?_⟩
          rw [stepNext] at hnext
          split at hnext
          · cases hnext
          · next hpc =>
              have hreturn : stepsLeft .return0 < stepsLeft p.memory.pc := by
                rw [hpc]
                exact Nat.one_pos
              split at hnext
              · cases hnext
                exact remaining_setMemory_lt hi hstatus hreturn
              · cases hnext
              · next table hwait =>
                  cases hnext
                  obtain ⟨c, q, hc, hzombie, rfl⟩ := ProcessTable.zombie_of_waitpid hwait
                  have hother : c ≠ i := by
                    rintro rfl
                    rw [hi] at hc
                    cases hc
                    rw [hstatus] at hzombie
                    cases hzombie
                  have hreap : _ < (s.table.map remaining).sum := sum_map_set_lt
                    (q := { q with status := .reaped }) hc (by simp [remaining, hzombie])
                  have hi' : (s.table.set c { q with status := .reaped })[i]? = some p := by
                    rw [List.getElem?_set_ne hother]
                    exact hi
                  exact (remaining_setMemory_lt hi' hstatus hreturn).trans hreap
          · cases hnext
            refine sum_map_set_lt hi ?_
            rw [remaining_of_running hstatus]
            exact Nat.lt_add_left _ Nat.one_lt_two
          · obtain ⟨m, hm, rfl⟩ := Option.map_eq_some_iff.mp hnext
            refine remaining_setMemory_lt hi hstatus (stepsLeft_localNext hm fun hfork => ?_)
            have hlt := (List.getElem?_eq_some_iff.mp hi).1
            have hset : (setMemory s.table i p m)[i]? = some { p with memory := m } :=
              List.getElem?_set_self hlt
            cases ((hchain.stages i _ hset).at_fork hfork).1

/-- Every process has printed nothing, but for the last one at its `return`. -/
theorem Stage.output
    {failed : Bool}
    {below : Option Process}
    (h : Stage failed j p below) :
    p.memory.output = [] ∨ below = none ∧ p.memory.output = [(j + 1 : Int)] := by
  cases h with
  | printed _ hmemory =>
      rw [hmemory]
      exact Or.inr ⟨rfl, rfl⟩
  | born _ _ hmemory | looping _ _ hmemory | forking _ _ _ hmemory
  | refused _ _ _ _ hmemory | counting _ _ _ hmemory | waiting _ _ _ _ _ hmemory
  | returned _ _ hmemory =>
      rw [hmemory]
      exact Or.inl rfl

/-- At `printf` the process is the last one. -/
theorem Stage.at_printf
    {failed : Bool}
    {below : Option Process}
    (h : Stage failed j p below)
    (hpc : p.memory.pc = .printf) :
    below = none ∧ p.status = .running ∧ p.memory.processes = j + 1 := by
  cases h with
  | refused _ _ _ hstatus hmemory =>
      exact ⟨rfl, hstatus, by rw [hmemory]⟩
  | waiting q pc hpc' _ _ hmemory =>
      rw [hmemory] at hpc
      rcases hpc' with rfl | rfl | rfl <;> cases hpc
  | _ =>
      simp_all

/-- While the last process has not ended, all of them are alive. -/
theorem Chain.alive_eq
    {failed : Bool}
    (h : Chain ids failed s)
    (hi : s.table[i]? = some p)
    (hlast : i + 1 = s.table.length)
    (hstatus : p.status = .running) :
    alive s = s.table.length := by
  have hrunning := ProcessTable.unreaped_of_running hstatus
  refine List.countP_eq_length.mpr fun r hr => decide_eq_true ?_
  obtain ⟨j, hj, hget⟩ := List.mem_iff_getElem.mp hr
  have hjr : s.table[j]? = some r := List.getElem?_eq_some_iff.mpr ⟨hj, hget⟩
  rcases Nat.lt_or_eq_of_le (Nat.le_of_lt_succ (hlast ▸ hj)) with hlt | rfl
  · exact h.running hi hrunning hjr hlt
  · rw [hi] at hjr
    cases hjr
    exact hstatus

/-- The call of `fork` that fails is the last one. -/
theorem Chain.length_of_forks
    {failed : Bool}
    (h : Chain ids failed s)
    (hforks : List.replicate k true ++ [false] <+: s.forks) :
    failed = true ∧ s.table.length = k + 1 := by
  have hpos := h.linked.nonempty
  have hlast : s.forks[k]? = some false := by
    obtain ⟨rest, hrest⟩ := hforks
    rw [← hrest, List.append_assoc, List.getElem?_append_right (by simp)]
    simp
  rw [h.forks] at hlast
  rcases Nat.lt_trichotomy k (s.table.length - 1) with hlt | heq | hgt
  · rw [List.getElem?_append_left (by simpa using hlt)] at hlast
    simp [hlt] at hlast
  · cases failed with
    | true =>
        exact ⟨rfl, by omega⟩
    | false =>
        simp [heq] at hlast
  · rw [List.getElem?_eq_none] at hlast
    · cases hlast
    · cases failed <;> simp <;> omega

/-- When nothing can move, the last process has printed. -/
theorem Chain.printed_of_stuck
    (h : Chain ids true s)
    (hlength : s.table.length = k + 1)
    (hstuck : ∀ a t, ¬ (system ids).step s a t) :
    ∃ p, s.table[k]? = some p ∧ p.memory.output = [(k + 1 : Int)] := by
  have hlt : k < s.table.length := by omega
  have hk := List.getElem?_eq_getElem hlt
  refine ⟨s.table[k], hk, ?_⟩
  have hstage := h.stages k _ hk
  rw [List.getElem?_eq_none (by omega)] at hstage
  cases hstage with
  | printed _ hmemory =>
      rw [hmemory]
  | refused pc hpc _ hstatus hmemory =>
      exfalso
      obtain ⟨t, ht⟩ : ∃ t, next ids s (.step k) = some t := by
        rw [next, hk]
        dsimp only
        rw [if_pos hstatus, stepNext, hmemory]
        rcases hpc with rfl | rfl | rfl | rfl <;> exact ⟨_, rfl⟩
      exact hstuck (.step k) t ⟨trivial, ht⟩
  | born hfailed | looping hfailed | forking _ hfailed =>
      cases hfailed

/-- When the first `k` calls of `fork` have succeeded and the next one has failed, only
the newest process prints, and it prints the number of processes, which are all alive. No
process forks again, and when all has been done the number has been printed. -/
theorem newest_process_prints
    (s : State)
    (k : Nat)
    (hs : (system ids).Reachable s)
    (hforks : List.replicate k true ++ [false] <+: s.forks) :
    (s.table.length = k + 1 ∧
      (∀ i p, s.table[i]? = some p →
        p.memory.output = [] ∨ i = k ∧ p.memory.output = [(k + 1 : Int)]) ∧
      (∀ i p, s.table[i]? = some p → p.memory.pc = .printf →
        i = k ∧ p.memory.processes = (k + 1 : Int) ∧ alive s = k + 1)) ∧
    (∀ i result, next ids s (.fork i result) = none) ∧
    Terminates (fun s t => ∃ a, (system ids).step s a t) s ∧
    ((∀ a t, ¬ (system ids).step s a t) →
      ∃ p, s.table[k]? = some p ∧ p.memory.output = [(k + 1 : Int)]) := by
  obtain ⟨failed, hchain⟩ := chain_of_reachable hs
  obtain ⟨rfl, hlength⟩ := hchain.length_of_forks hforks
  have hlast (i : Nat) (p : Process) (hi : s.table[i]? = some p)
      (hnone : s.table[i + 1]? = none) : i = k := by
    have := eq_length_of_none hi hnone
    omega
  refine ⟨⟨hlength, fun i p hi => ?_, fun i p hi hpc => ?_⟩, hchain.no_fork, ?_,
    hchain.printed_of_stuck hlength⟩
  · rcases (hchain.stages i p hi).output with hnothing | ⟨hnone, hprinted⟩
    · exact Or.inl hnothing
    · obtain rfl := hlast i p hi hnone
      exact Or.inr ⟨rfl, hprinted⟩
  · obtain ⟨hnone, hstatus, hprocesses⟩ := (hchain.stages i p hi).at_printf hpc
    obtain rfl := hlast i p hi hnone
    rw [hchain.alive_eq hi hlength.symm hstatus, hlength]
    exact ⟨rfl, hprocesses, rfl⟩
  · have hlower (s t : State) (h : Chain ids true s) (hst : ∃ a, (system ids).step s a t) :
        Chain ids true t ∧ remainingOfAll t < remainingOfAll s := by
      obtain ⟨a, -, hnext⟩ := hst
      exact h.lower hnext
    exact terminates_of_measure remainingOfAll (fun s t h hst => (hlower s t h hst).1)
      (fun s t h hst => (hlower s t h hst).2) hchain

/-- One process has been created, and the next call of `fork` has failed. -/
def twoProcesses : State where
  table := [
    ⟨7, none, .running, ⟨.count, 1, 8, []⟩⟩,
    ⟨8, some 7, .running, ⟨.count, 2, -1, []⟩⟩]
  forks := [true, false]

theorem reachable_twoProcesses :
    (system .linux).Reachable twoProcesses := by
  have hfirst : (system .linux).Reachable ⟨[first 7 0], []⟩ :=
    .init ⟨7, 0, by decide, by decide, rfl⟩
  refine TransitionSystem.reachable_of_exec
    [.fork 0 (some 8), .step 1, .step 1, .fork 1 none] hfirst (by decide) rfl

theorem newest_process_prints_two :
    (∀ i result, next .linux twoProcesses (.fork i result) = none) ∧
    Terminates (fun s t => ∃ a, (system .linux).step s a t) twoProcesses := by
  have hforks : List.replicate 1 true ++ [false] <+: twoProcesses.forks :=
    List.prefix_rfl
  obtain ⟨-, hfork, hterminates, -⟩ :=
    newest_process_prints twoProcesses 1 reachable_twoProcesses hforks
  exact ⟨hfork, hterminates⟩

end Refused

end ForkChain
end ForkAndExec
end OsSeminars
