import OsSeminars.Foundation.Branching
import OsSeminars.Foundation.ProcessTable
import OsSeminars.Foundation.TransitionSystem
import Mathlib.Data.Set.Card

/-!
# 13-fork-and-exec/fork-bomb.c: processes that only fork

Every process calls `fork` for ever, and nobody looks at the result. The memory of a
process holds nothing, so what is kept of it here is what the calls of `fork` have
returned in it: an id, `0` in a child, or `-1`. A child begins with the results of its
parent.

The processes move in any order, and `fork` may fail at any time. The rounds of a process
are the calls that have returned in its memory.
-/

namespace OsSeminars
namespace ForkAndExec
namespace ForkBomb

open Foundation

/-- A process with the results of its calls of `fork`. -/
abbrev Process : Type :=
  ProcessTable.Entry (List Int)

/-- Which process moves, and the id of its child if `fork` does not fail. -/
structure Label where
  process : Nat
  child : Option Nat
  deriving DecidableEq

/-- A call of `fork` has returned in this process. -/
def Process.returned
    (p : Process)
    (result : Int) :
    Process :=
  { p with memory := p.memory ++ [result] }

/-- `while(1) { fork(); }` -/
def next
    (ids : ProcessTable.Ids)
    (table : List Process)
    (a : Label) :
    Option (List Process) :=
  match table[a.process]? with
  | none => none
  | some p =>
      match a.child with
      | none => some (table.set a.process (p.returned (-1)))
      | some pid =>
          if ProcessTable.Fresh ids table pid then
            some (table.set a.process (p.returned pid) ++
              [ProcessTable.forked p pid (p.memory ++ [0])])
          else none

/-- The process that the shell starts. -/
def first
    (own : Nat) :
    Process where
  pid := own
  parent := none
  status := .running
  memory := []

def system
    (ids : ProcessTable.Ids) :
    TransitionSystem (List Process) Label :=
  .ofProgram
    (fun table => ∃ own, 0 < own ∧ own ≤ ids.greatest ∧ table = [first own])
    (fun _ _ => True) (next ids)

/-- The number of the calls of `fork` that have returned. -/
def Process.rounds
    (p : Process) :
    Nat :=
  p.memory.length

/-- No call of `fork` has failed. -/
def Succeeded
    (table : List Process) :
    Prop :=
  ∀ p ∈ table, (-1 : Int) ∉ p.memory

/-- The process with this id is so many forks away from the first one. -/
inductive Generation (table : List Process) : Nat → Nat → Prop
  | first {pid : Nat} :
      (pid, none) ∈ table.map ProcessTable.Entry.origin →
      Generation table pid 0
  | child {pid parent g : Nat} :
      (pid, some parent) ∈ table.map ProcessTable.Entry.origin →
      Generation table parent g →
      Generation table pid (g + 1)

/-- In which of its calls of `fork` a process was the child. -/
def Process.path
    (p : Process) :
    Branching.Path :=
  p.memory.map fun result => decide (result = 0)

section Paths

variable {p : Process} {result : Int} {pid : Nat}

@[simp]
theorem path_returned_failed :
    (p.returned (-1)).path = p.path ++ [false] := by
  simp [Process.path, Process.returned]

theorem path_returned_child
    (hpid : 0 < pid) :
    (p.returned pid).path = p.path ++ [false] := by
  have hne : pid ≠ 0 := by omega
  simp [Process.path, Process.returned, hne]

@[simp]
theorem path_forked :
    Process.path (ProcessTable.forked p pid (p.memory ++ [0])) = p.path ++ [true] := by
  simp [Process.path, ProcessTable.forked]

@[simp]
theorem origin_returned :
    (p.returned result).origin = p.origin :=
  rfl

theorem length_path :
    p.path.length = p.rounds :=
  List.length_map _

end Paths

section Steps

variable {ids : ProcessTable.Ids} {table table' : List Process} {a : Label} {p : Process}
variable {i : Nat}

/-- What a step does. -/
theorem next_cases
    (h : next ids table a = some table') :
    ∃ p, table[a.process]? = some p ∧
      ((a.child = none ∧ table' = table.set a.process (p.returned (-1))) ∨
        ∃ pid, a.child = some pid ∧ ProcessTable.Fresh ids table pid ∧
          table' = table.set a.process (p.returned pid) ++
            [ProcessTable.forked p pid (p.memory ++ [0])]) := by
  rw [next] at h
  split at h
  · cases h
  · next p hp =>
      refine ⟨p, hp, ?_⟩
      split at h
      · next hchild =>
          exact Or.inl ⟨hchild, (Option.some.inj h).symm⟩
      · next pid hchild =>
          split_ifs at h with hfresh
          exact Or.inr ⟨pid, hchild, hfresh, (Option.some.inj h).symm⟩

theorem mem_set_cases
    {q r : Process}
    (h : q ∈ table.set i r) :
    q = r ∨ q ∈ table := by
  rcases List.mem_or_eq_of_mem_set h with hold | hnew
  · exact Or.inr hold
  · exact Or.inl hnew

/-- The paths, with that of the moving process in front. -/
theorem paths_perm
    (hp : table[i]? = some p) :
    (table.map Process.path).Perm
      (p.path :: (table.eraseIdx i).map Process.path) := by
  obtain ⟨hlt, hget⟩ := List.getElem?_eq_some_iff.mp hp
  have hperm := (List.set_perm_cons_eraseIdx hlt p).map Process.path
  rwa [← hget, List.set_getElem_self, hget] at hperm

theorem paths_set_perm
    (hp : table[i]? = some p)
    (q : Process) :
    ((table.set i q).map Process.path).Perm
      (q.path :: (table.eraseIdx i).map Process.path) := by
  obtain ⟨hlt, _⟩ := List.getElem?_eq_some_iff.mp hp
  exact (List.set_perm_cons_eraseIdx hlt q).map Process.path

/-- The same after a child has been added. -/
theorem paths_fork_perm
    (hp : table[i]? = some p)
    (q child : Process) :
    ((table.set i q ++ [child]).map Process.path).Perm
      (q.path :: child.path :: (table.eraseIdx i).map Process.path) := by
  rw [List.map_append]
  refine ((paths_set_perm hp q).append_right _).trans ?_
  rw [List.cons_append]
  exact List.Perm.cons _ List.perm_append_comm

/-- The origins of the processes stay, and that of a child is added. -/
theorem origins_fork
    (hp : table[i]? = some p)
    (pid : Nat)
    (result : Int) :
    (table.set i (p.returned result) ++
        [ProcessTable.forked p pid (p.memory ++ [0])]).map ProcessTable.Entry.origin =
      table.map ProcessTable.Entry.origin ++ [(pid, some p.pid)] := by
  rw [List.map_append, ProcessTable.origins_set hp origin_returned]
  rfl

end Steps

/-- What holds of the processes at any time. -/
structure Exploded
    (ids : ProcessTable.Ids)
    (table : List Process) :
    Prop where
  running : ∀ p ∈ table, p.status = .running
  range : ∀ p ∈ table, 0 < p.pid ∧ p.pid ≤ ids.greatest
  nodup : (ProcessTable.pids table).Nodup
  apart : Branching.Apart (table.map Process.path)
  covering : Succeeded table → Branching.Covering (table.map Process.path)
  generation : ∀ p ∈ table, Generation table p.pid (p.path.count true)

section Invariant

variable {ids : ProcessTable.Ids} {table table' : List Process} {p : Process}
variable {i pid : Nat}

theorem exploded_first
    {own : Nat}
    (hpos : 0 < own)
    (hle : own ≤ ids.greatest) :
    Exploded ids [first own] where
  running := by
    intro p hp
    rw [List.mem_singleton.mp hp]
    rfl
  range := by
    intro p hp
    rw [List.mem_singleton.mp hp]
    exact ⟨hpos, hle⟩
  nodup := List.nodup_singleton _
  apart := Branching.apart_first
  covering := fun _ => Branching.covering_first
  generation := by
    intro p hp
    rw [List.mem_singleton.mp hp]
    exact Generation.first List.mem_cons_self

/-- Nobody gets another id or another parent. -/
theorem Generation.mono
    {g : Nat}
    (hsub : table.map ProcessTable.Entry.origin ⊆ table'.map ProcessTable.Entry.origin)
    (h : Generation table pid g) :
    Generation table' pid g := by
  induction h with
  | first horigin =>
      exact Generation.first (hsub horigin)
  | child horigin _ ih =>
      exact Generation.child (hsub horigin) ih

/-- Where the results of everyone are free of failures, they were before the step. -/
theorem Succeeded.of_set
    {result : Int}
    (hp : table[i]? = some p)
    (h : Succeeded (table.set i (p.returned result))) :
    Succeeded table := by
  obtain ⟨hlt, hget⟩ := List.getElem?_eq_some_iff.mp hp
  intro q hq hfailed
  obtain ⟨j, hj, rfl⟩ := List.mem_iff_getElem.mp hq
  by_cases hji : j = i
  · subst hji
    refine h (p.returned result) (List.mem_set hlt _) ?_
    rw [hget] at hfailed
    exact List.mem_append_left _ hfailed
  · refine h table[j] ?_ hfailed
    rw [List.mem_iff_getElem]
    refine ⟨j, by rw [List.length_set]; exact hj, ?_⟩
    rw [List.getElem_set_ne (fun hij => hji hij.symm)]

/-- `fork` has failed. -/
theorem Exploded.failed
    (h : Exploded ids table)
    (hp : table[i]? = some p) :
    Exploded ids (table.set i (p.returned (-1))) where
  running := by
    intro q hq
    rcases mem_set_cases hq with rfl | hold
    · exact h.running p (List.mem_of_getElem? hp)
    · exact h.running q hold
  range := by
    intro q hq
    rcases mem_set_cases hq with rfl | hold
    · exact h.range p (List.mem_of_getElem? hp)
    · exact h.range q hold
  nodup := by
    rw [ProcessTable.pids_eq_of_origins (ProcessTable.origins_set hp origin_returned)]
    exact h.nodup
  apart := by
    refine Branching.Apart.perm ?_ (paths_set_perm hp _).symm
    rw [path_returned_failed]
    exact (h.apart.perm (paths_perm hp)).alone
  covering := by
    intro hsucceeded
    obtain ⟨hlt, _⟩ := List.getElem?_eq_some_iff.mp hp
    have hnone := hsucceeded (p.returned (-1)) (List.mem_set hlt _)
    exact absurd (List.mem_append_right _ (List.mem_singleton_self _)) hnone
  generation := by
    have hmono : ∀ {own g : Nat}, Generation table own g →
        Generation (table.set i (p.returned (-1))) own g := by
      intro own g hg
      refine hg.mono ?_
      rw [ProcessTable.origins_set hp origin_returned]
      exact List.Subset.refl _
    intro q hq
    rcases mem_set_cases hq with rfl | hold
    · have hcount : (p.returned (-1)).path.count true = p.path.count true := by
        rw [path_returned_failed, List.count_append]
        rfl
      rw [hcount]
      exact hmono (h.generation p (List.mem_of_getElem? hp))
    · exact hmono (h.generation q hold)

/-- `fork` has made a child. -/
theorem Exploded.forked
    (h : Exploded ids table)
    (hp : table[i]? = some p)
    (hfresh : ProcessTable.Fresh ids table pid) :
    Exploded ids (table.set i (p.returned pid) ++
      [ProcessTable.forked p pid (p.memory ++ [0])]) where
  running := by
    intro q hq
    rcases List.mem_append.mp hq with hset | hchild
    · rcases mem_set_cases hset with rfl | hold
      · exact h.running p (List.mem_of_getElem? hp)
      · exact h.running q hold
    · rw [List.mem_singleton.mp hchild]
      rfl
  range := by
    intro q hq
    rcases List.mem_append.mp hq with hset | hchild
    · rcases mem_set_cases hset with rfl | hold
      · exact h.range p (List.mem_of_getElem? hp)
      · exact h.range q hold
    · rw [List.mem_singleton.mp hchild]
      exact ⟨hfresh.1, hfresh.2.1⟩
  nodup := by
    have hpids : ProcessTable.pids (table.set i (p.returned pid)) = ProcessTable.pids table :=
      ProcessTable.pids_eq_of_origins (ProcessTable.origins_set hp origin_returned)
    have hunreaped : ∀ q ∈ table, q.status ≠ .reaped :=
      fun q hq => ProcessTable.unreaped_of_running (h.running q hq)
    rw [ProcessTable.pids, List.map_append]
    rw [ProcessTable.pids] at hpids
    rw [hpids]
    exact ProcessTable.nodup_pids_append h.nodup hunreaped hfresh
  apart := by
    refine Branching.Apart.perm ?_ (paths_fork_perm hp _ _).symm
    rw [path_returned_child hfresh.1, path_forked]
    exact (h.apart.perm (paths_perm hp)).split
  covering := by
    intro hsucceeded
    have hbefore : Succeeded table :=
      Succeeded.of_set hp fun q hq => hsucceeded q (List.mem_append_left _ hq)
    refine Branching.Covering.perm ?_ (paths_fork_perm hp _ _).symm
    rw [path_returned_child hfresh.1, path_forked]
    exact ((h.covering hbefore).perm (paths_perm hp)).split
  generation := by
    have horigins := origins_fork hp pid pid
    have hmono : ∀ {own g : Nat}, Generation table own g → Generation
        (table.set i (p.returned pid) ++
          [ProcessTable.forked p pid (p.memory ++ [0])]) own g := by
      intro own g hg
      refine hg.mono ?_
      rw [horigins]
      exact List.subset_append_left _ _
    have hparent := h.generation p (List.mem_of_getElem? hp)
    intro q hq
    rcases List.mem_append.mp hq with hset | hchild
    · rcases mem_set_cases hset with rfl | hold
      · have hcount : (p.returned pid).path.count true = p.path.count true := by
          rw [path_returned_child hfresh.1, List.count_append]
          rfl
        rw [hcount]
        exact hmono hparent
      · exact hmono (h.generation q hold)
    · rw [List.mem_singleton.mp hchild, path_forked, List.count_append]
      refine Generation.child ?_ (hmono hparent)
      rw [horigins]
      exact List.mem_append_right _ (List.mem_singleton_self _)

theorem exploded_of_reachable
    (h : (system ids).Reachable table) :
    Exploded ids table := by
  refine h.invariant ?_ ?_
  · rintro _ ⟨own, hpos, hle, rfl⟩
    exact exploded_first hpos hle
  · rintro _ a _ hexploded ⟨_, hnext⟩
    obtain ⟨p, hp, ⟨_, rfl⟩ | ⟨pid, _, hfresh, rfl⟩⟩ := next_cases hnext
    · exact hexploded.failed hp
    · exact hexploded.forked hp hfresh

end Invariant

section Numbers

variable {ids : ProcessTable.Ids} {table : List Process} {p : Process} {i pid d g : Nat}

theorem paths_le
    (hd : ∀ p ∈ table, p.rounds ≤ d) :
    ∀ path ∈ table.map Process.path, path.length ≤ d := by
  intro path hpath
  obtain ⟨p, hp, rfl⟩ := List.mem_map.mp hpath
  rw [length_path]
  exact hd p hp

theorem le_paths
    (hd : ∀ p ∈ table, d ≤ p.rounds) :
    ∀ path ∈ table.map Process.path, d ≤ path.length := by
  intro path hpath
  obtain ⟨p, hp, rfl⟩ := List.mem_map.mp hpath
  rw [length_path]
  exact hd p hp

theorem Exploded.length_le
    (h : Exploded ids table)
    (hd : ∀ p ∈ table, p.rounds ≤ d) :
    table.length ≤ 2 ^ d := by
  have hle := h.apart.length_le (paths_le hd)
  rwa [List.length_map] at hle

theorem Exploded.le_length
    (h : Exploded ids table)
    (hsucceeded : Succeeded table)
    (hd : ∀ p ∈ table, d ≤ p.rounds) :
    2 ^ d ≤ table.length := by
  have hle := (h.covering hsucceeded).le_length (le_paths hd)
  rwa [List.length_map] at hle

/-- The kernel has an id for a new process as long as there are fewer than ids. -/
theorem exists_fresh
    (h : table.length < ids.greatest) :
    ∃ pid, ProcessTable.Fresh ids table pid := by
  by_contra hnone
  have hsub : List.range' 1 ids.greatest ⊆ ProcessTable.pids table := by
    intro pid hpid
    rw [List.mem_range'_1] at hpid
    by_contra hunused
    refine hnone ⟨pid, hpid.1, by omega, fun p hp _ hsame => hunused ?_⟩
    exact List.mem_map.mpr ⟨p, hp, hsame⟩
  have hnodup : (List.range' 1 ids.greatest).Nodup := List.nodup_range' 1
  have hle := (hnodup.subperm hsub).length_le
  rw [List.length_range', ProcessTable.pids, List.length_map] at hle
  omega

theorem enabled_failed
    (hp : table[i]? = some p) :
    (system ids).Enabled table ⟨i, none⟩ := by
  refine ⟨table.set i (p.returned (-1)), trivial, ?_⟩
  simp only [next, hp]

theorem step_forked
    (hp : table[i]? = some p)
    (hfresh : ProcessTable.Fresh ids table pid) :
    (system ids).step table ⟨i, some pid⟩
      (table.set i (p.returned pid) ++ [ProcessTable.forked p pid (p.memory ++ [0])]) := by
  refine ⟨trivial, ?_⟩
  simp only [next, hp, if_pos hfresh]

/-- No process ever ends, and every process can go on. -/
theorem Exploded.goes_on
    (h : Exploded ids table)
    (hp : table[i]? = some p) :
    p.status = .running ∧ (system ids).Enabled table ⟨i, none⟩ ∧
      (table.length < ids.greatest → ∃ pid, (system ids).Enabled table ⟨i, some pid⟩) := by
  refine ⟨h.running p (List.mem_of_getElem? hp), enabled_failed hp, fun hless => ?_⟩
  obtain ⟨pid, hfresh⟩ := exists_fresh hless
  exact ⟨pid, _, step_forked hp hfresh⟩

/-- However the processes take turns and whichever calls fail: if nobody has made more
than `d` calls, then there are at most `2 ^ d` processes, and if everybody has made `d`
calls and none has failed, then there are at least so many. All of them go on for ever. -/
theorem length_of_rounds
    (h : (system ids).Reachable table) :
    (∀ d, (∀ p ∈ table, p.rounds ≤ d) → table.length ≤ 2 ^ d) ∧
      (Succeeded table → ∀ d, (∀ p ∈ table, d ≤ p.rounds) → 2 ^ d ≤ table.length) ∧
      table.length ≤ ids.greatest ∧
      ∀ i p, table[i]? = some p →
        p.status = .running ∧ (system ids).Enabled table ⟨i, none⟩ ∧
          (table.length < ids.greatest →
            ∃ pid, (system ids).Enabled table ⟨i, some pid⟩) := by
  have hexploded := exploded_of_reachable h
  refine ⟨fun d hd => hexploded.length_le hd, fun hsucceeded d hd => ?_, ?_, ?_⟩
  · exact hexploded.le_length hsucceeded hd
  · exact ProcessTable.length_le_greatest hexploded.nodup hexploded.range
  · intro i p hp
    exact hexploded.goes_on hp

theorem reachable_first :
    (system .linux).Reachable [first 1] :=
  TransitionSystem.Reachable.init ⟨1, by decide, by decide, rfl⟩

/-- The first process and its child have made two calls each, and the two others were
born in the second one. -/
def twoRounds : List Label :=
  [⟨0, some 2⟩, ⟨1, some 3⟩, ⟨0, some 4⟩]

theorem exists_twoRounds :
    ∃ table, (system .linux).Reachable table ∧ Succeeded table ∧
      ∀ p ∈ table, p.rounds = 2 := by
  obtain ⟨table, hreach, htest⟩ :=
    TransitionSystem.exists_reachable_of_exec twoRounds
      (fun table : List Process =>
        decide ((∀ p ∈ table, (-1 : Int) ∉ p.memory) ∧ ∀ p ∈ table, p.memory.length = 2))
      reachable_first (by decide +kernel) (by decide +kernel)
  obtain ⟨hsucceeded, hrounds⟩ := of_decide_eq_true htest
  exact ⟨table, hreach, hsucceeded, hrounds⟩

theorem length_of_rounds_twoRounds :
    ∃ table, (system .linux).Reachable table ∧
      (∀ p ∈ table, p.rounds = 2) ∧ table.length = 4 := by
  obtain ⟨table, hreach, hsucceeded, hrounds⟩ := exists_twoRounds
  obtain ⟨hle, hge, -⟩ := length_of_rounds hreach
  refine ⟨table, hreach, hrounds, Nat.le_antisymm ?_ ?_⟩
  · exact hle 2 fun p hp => (hrounds p hp).le
  · exact hge hsucceeded 2 fun p hp => (hrounds p hp).ge

/-- A process has one place in the tree. -/
theorem Generation.unique
    {g' : Nat}
    (hnodup : (ProcessTable.pids table).Nodup)
    (h : Generation table pid g)
    (h' : Generation table pid g') :
    g = g' := by
  have hsame : ∀ {pid : Nat} {a b : Option Nat},
      (pid, a) ∈ table.map ProcessTable.Entry.origin →
      (pid, b) ∈ table.map ProcessTable.Entry.origin → a = b := by
    intro pid a b ha hb
    have hfst : ((table.map ProcessTable.Entry.origin).map Prod.fst).Nodup := by
      rw [List.map_map]
      exact hnodup
    have hpair := List.inj_on_of_nodup_map hfst ha hb rfl
    exact congrArg Prod.snd hpair
  induction h generalizing g' with
  | first horigin =>
      cases h' with
      | first _ =>
          rfl
      | child horigin' _ =>
          cases hsame horigin horigin'
  | child horigin _ ih =>
      cases h' with
      | first horigin' =>
          cases hsame horigin horigin'
      | child horigin' hparent =>
          cases hsame horigin horigin'
          rw [ih hparent]

theorem Generation.mem
    (h : Generation table pid g) :
    ∃ p ∈ table, p.pid = pid := by
  cases h with
  | first horigin =>
      obtain ⟨p, hp, heq⟩ := List.mem_map.mp horigin
      exact ⟨p, hp, congrArg Prod.fst heq⟩
  | child horigin _ =>
      obtain ⟨p, hp, heq⟩ := List.mem_map.mp horigin
      exact ⟨p, hp, congrArg Prod.fst heq⟩

/-- The ids of a generation, in the order of the processes. -/
def idsOfGeneration
    (table : List Process)
    (g : Nat) :
    List Nat :=
  (table.filter fun p => p.path.count true = g).map ProcessTable.Entry.pid

theorem Exploded.mem_generation_iff
    (h : Exploded ids table) :
    pid ∈ idsOfGeneration table g ↔ Generation table pid g := by
  rw [idsOfGeneration, List.mem_map]
  constructor
  · rintro ⟨p, hp, rfl⟩
    obtain ⟨hmem, hcount⟩ := List.mem_filter.mp hp
    rw [← of_decide_eq_true hcount]
    exact h.generation p hmem
  · intro hg
    obtain ⟨p, hp, rfl⟩ := hg.mem
    refine ⟨p, List.mem_filter.mpr ⟨hp, decide_eq_true ?_⟩, rfl⟩
    exact Generation.unique h.nodup (h.generation p hp) hg

theorem Exploded.ncard_generation
    (h : Exploded ids table) :
    {pid | Generation table pid g}.ncard =
      (table.map Process.path).countP fun path => path.count true = g := by
  have hset : {pid | Generation table pid g} =
      ((idsOfGeneration table g).toFinset : Set Nat) := by
    ext pid
    rw [Set.mem_ofPred_eq, ← h.mem_generation_iff, Finset.mem_coe, List.mem_toFinset]
  have hnodup : (idsOfGeneration table g).Nodup :=
    h.nodup.sublist (List.filter_sublist.map _)
  rw [hset, Set.ncard_coe_finset, List.toFinset_card_of_nodup hnodup, idsOfGeneration,
    List.length_map, ← List.countP_eq_length_filter, List.countP_map]
  rfl

/-- Whatever the order: when everybody has made `d` calls and none has failed, the
processes that are `g` forks away from the first one are `d` over `g` in number. -/
theorem ncard_generation_of_rounds
    (h : (system ids).Reachable table)
    (hsucceeded : Succeeded table)
    (hd : ∀ p ∈ table, p.rounds = d)
    (g : Nat) :
    {pid | Generation table pid g}.ncard = d.choose g := by
  have hexploded := exploded_of_reachable h
  rw [hexploded.ncard_generation]
  refine Branching.countP_copies hexploded.apart (hexploded.covering hsucceeded) ?_ g
  intro path hpath
  obtain ⟨p, hp, rfl⟩ := List.mem_map.mp hpath
  rw [length_path]
  exact hd p hp

/-- Here two processes are children of the first one, and one is a grandchild. -/
theorem ncard_generation_of_rounds_twoRounds :
    ∃ table, (system .linux).Reachable table ∧ {pid | Generation table pid 1}.ncard = 2 := by
  obtain ⟨table, hreach, hsucceeded, hrounds⟩ := exists_twoRounds
  exact ⟨table, hreach, ncard_generation_of_rounds hreach hsucceeded hrounds 1⟩

end Numbers

section Levels

variable {ids : ProcessTable.Ids} {table : List Process} {p : Process} {i pid d : Nat}

/-- A process that is behind leaves room for its child. -/
theorem Exploded.length_lt
    (h : Exploded ids table)
    (hd : ∀ p ∈ table, p.rounds ≤ d)
    (hp : table[i]? = some p)
    (hbehind : p.rounds < d) :
    table.length < 2 ^ d := by
  obtain ⟨hlt, _⟩ := List.getElem?_eq_some_iff.mp hp
  have hsplit : _ ≤ 2 ^ d := (h.apart.perm (paths_perm hp)).split.length_le (by
    intro path hpath
    rw [List.mem_cons, List.mem_cons] at hpath
    rcases hpath with rfl | rfl | hrest
    · rw [List.length_append, List.length_singleton, length_path]
      exact hbehind
    · rw [List.length_append, List.length_singleton, length_path]
      exact hbehind
    · obtain ⟨q, hq, rfl⟩ := List.mem_map.mp hrest
      rw [length_path]
      exact hd q (List.mem_of_mem_eraseIdx hq))
  rw [List.length_cons, List.length_cons, List.length_map, List.length_eraseIdx_of_lt hlt]
    at hsplit
  omega

theorem Succeeded.forked
    (h : Succeeded table)
    (hp : table[i]? = some p) :
    Succeeded (table.set i (p.returned pid) ++
      [ProcessTable.forked p pid (p.memory ++ [0])]) := by
  have hparent := h p (List.mem_of_getElem? hp)
  intro q hq hfailed
  rcases List.mem_append.mp hq with hset | hchild
  · rcases mem_set_cases hset with rfl | hold
    · rcases List.mem_append.mp hfailed with hbefore | hnew
      · exact hparent hbefore
      · have hneg := List.mem_singleton.mp hnew
        omega
    · exact h q hold hfailed
  · rw [List.mem_singleton.mp hchild] at hfailed
    rcases List.mem_append.mp hfailed with hbefore | hnew
    · exact hparent hbefore
    · cases List.mem_singleton.mp hnew

theorem rounds_forked_le
    (hd : ∀ p ∈ table, p.rounds ≤ d)
    (hbehind : p.rounds < d) :
    ∀ q ∈ table.set i (p.returned pid) ++
      [ProcessTable.forked p pid (p.memory ++ [0])], q.rounds ≤ d := by
  have hone : ∀ result : Int, (p.memory ++ [result]).length ≤ d := by
    intro result
    rw [List.length_append, List.length_singleton]
    exact hbehind
  intro q hq
  rcases List.mem_append.mp hq with hset | hchild
  · rcases mem_set_cases hset with rfl | hold
    · exact hone pid
    · exact hd q hold
  · rw [List.mem_singleton.mp hchild]
    exact hone 0

/-- As long as the ids last, the processes can draw level again: from any state in which
no call has failed and nobody has made more than `d` calls, a run without a failure leads
to `2 ^ d` processes that have made `d` calls each. -/
theorem exists_level
    (h : (system ids).Reachable table)
    (hsucceeded : Succeeded table)
    (hd : ∀ p ∈ table, p.rounds ≤ d)
    (hids : 2 ^ d ≤ ids.greatest) :
    ∃ table', (system ids).Runs table table' ∧ Succeeded table' ∧
      (∀ p ∈ table', p.rounds = d) ∧ table'.length = 2 ^ d := by
  have hprogress : ∀ t : List Process,
      (Exploded ids t ∧ Succeeded t ∧ ∀ p ∈ t, p.rounds ≤ d) →
      (∀ p ∈ t, d ≤ p.rounds) ∨ ∃ a t', (system ids).step t a t' ∧
        (Exploded ids t' ∧ Succeeded t' ∧ ∀ p ∈ t', p.rounds ≤ d) ∧
        2 ^ d - t'.length < 2 ^ d - t.length := by
    rintro t ⟨hexploded, hgood, hle⟩
    by_cases hlevel : ∀ p ∈ t, d ≤ p.rounds
    · exact Or.inl hlevel
    · right
      push Not at hlevel
      obtain ⟨p, hmem, hbehind⟩ := hlevel
      obtain ⟨i, hp⟩ := List.getElem?_of_mem hmem
      have hroom := hexploded.length_lt hle hp hbehind
      obtain ⟨pid, hfresh⟩ := exists_fresh (hroom.trans_le hids)
      refine ⟨_, _, step_forked hp hfresh,
        ⟨hexploded.forked hp hfresh, hgood.forked hp, rounds_forked_le hle hbehind⟩, ?_⟩
      rw [List.length_append, List.length_set, List.length_singleton]
      omega
  obtain ⟨table', hruns, ⟨hexploded, hgood, hle⟩, hge⟩ :=
    TransitionSystem.exists_runs_of_measure (fun t : List Process => 2 ^ d - t.length)
      hprogress ⟨exploded_of_reachable h, hsucceeded, hd⟩
  refine ⟨table', hruns, hgood, fun p hp => Nat.le_antisymm (hle p hp) (hge p hp), ?_⟩
  exact Nat.le_antisymm (hexploded.length_le hle) (hexploded.le_length hgood hge)

/-- One child has been made; the eight processes of three rounds can still be reached. -/
theorem exists_level_threeRounds :
    ∃ table, (system .linux).Reachable table ∧ table.length = 2 ∧
      ∃ table', (system .linux).Runs table table' ∧ table'.length = 8 := by
  obtain ⟨table, hreach, htest⟩ :=
    TransitionSystem.exists_reachable_of_exec [⟨0, some 2⟩]
      (fun table : List Process =>
        decide ((∀ p ∈ table, (-1 : Int) ∉ p.memory) ∧
          (∀ p ∈ table, p.memory.length ≤ 3) ∧ table.length = 2))
      reachable_first (by decide +kernel) (by decide +kernel)
  obtain ⟨hsucceeded, hrounds, hlength⟩ := of_decide_eq_true htest
  obtain ⟨table', hruns, -, -, height⟩ :=
    exists_level hreach hsucceeded hrounds (by decide)
  exact ⟨table, hreach, hlength, table', hruns, height⟩

end Levels

end ForkBomb
end ForkAndExec
end OsSeminars
