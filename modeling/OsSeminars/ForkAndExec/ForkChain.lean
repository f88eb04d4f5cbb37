import OsSeminars.Foundation.MachineInt
import OsSeminars.Foundation.ProcessTable
import OsSeminars.Foundation.TransitionSystem

/-!
# 13-fork-and-exec/11-0.c: a chain of processes

Every process forks once. Its child goes on with the loop, and the process itself waits
for the child. A call of `fork` that fails ends the chain: the process that made it
prints its counter. The counter is raised on both sides of every successful `fork`, so
it is the number of processes in the chain.

A label says which process moves, and what `fork` returns. A successful `fork` gives any
id that is not in use, and `fork` may fail at any time. What a process prints is kept in
the process.
-/

namespace OsSeminars
namespace ForkAndExec
namespace ForkChain

open Foundation

/-- The program points of `main`. -/
inductive Pc
  /-- `pid = fork()` -/
  | fork
  /-- `if (pid != -1) ++processes` -/
  | count
  /-- `while (pid == 0)` -/
  | loop
  /-- `if (pid > 0)` and `else if (pid == -1)` -/
  | branch
  | waitpid
  | printf
  | return0
  deriving DecidableEq

/-- The variables of `main`, and the numbers that this process has printed. -/
structure Main where
  pc : Pc
  processes : Int
  pid : Int
  output : List Int

abbrev Process : Type :=
  ProcessTable.Entry Main

/-- The processes, and which calls of `fork` have succeeded, in their order. -/
structure State where
  table : List (Process)
  forks : List Bool

/-- Which process moves; `fork` returns the id of the child, or fails. -/
inductive Label
  | fork (i : Nat) (result : Option Nat)
  | step (i : Nat)
  deriving DecidableEq

/-- The process that the shell starts; `pid` is not initialised. -/
def first
    (own : Nat)
    (pid : Int) :
    Process where
  pid := own
  parent := none
  status := .running
  memory := { pc := .fork, processes := 1, pid := pid, output := [] }

/-- A step that asks nothing of the kernel. -/
def localNext
    (m : Main) :
    Option Main :=
  match m.pc with
  | .count =>
      some { m with
        processes := if m.pid ≠ -1 then toInt32 (m.processes + 1) else m.processes
        pc := .loop }
  | .loop => some { m with pc := if m.pid = 0 then .fork else .branch }
  | .branch =>
      some { m with
        pc := if m.pid > 0 then .waitpid else if m.pid = -1 then .printf else .return0 }
  | .printf => some { m with output := m.output ++ [m.processes], pc := .return0 }
  | _ => none

/-- The process `i` has changed its memory. -/
def setMemory
    (table : List (Process))
    (i : Nat)
    (p : Process)
    (m : Main) :
    List (Process) :=
  table.set i { p with memory := m }

/-- `pid = fork()` of the process `i`. -/
def forkNext
    (ids : ProcessTable.Ids)
    (s : State)
    (i : Nat)
    (p : Process)
    (result : Option Nat) :
    Option State :=
  if p.memory.pc = .fork then
    match result with
    | none =>
        some {
          table := setMemory s.table i p { p.memory with pid := -1, pc := .count }
          forks := s.forks ++ [false] }
    | some pid =>
        if ProcessTable.Fresh ids s.table pid then
          some {
            table := setMemory s.table i p { p.memory with pid := pid, pc := .count } ++
              [ProcessTable.forked p pid { p.memory with pid := 0, pc := .count }]
            forks := s.forks ++ [true] }
        else none
  else none

/-- Any other step of the process `i`. -/
def stepNext
    (s : State)
    (i : Nat)
    (p : Process) :
    Option State :=
  match p.memory.pc with
  | .fork => none
  | .waitpid =>
      match ProcessTable.waitpid s.table p.pid p.memory.pid with
      | .noChild =>
          some { s with table := setMemory s.table i p { p.memory with pc := .return0 } }
      | .blocked => none
      | .reaped table =>
          some { s with table := setMemory table i p { p.memory with pc := .return0 } }
  | .return0 => some { s with table := s.table.set i { p with status := .zombie } }
  | _ => (localNext p.memory).map fun m => { s with table := setMemory s.table i p m }

def next
    (ids : ProcessTable.Ids)
    (s : State) :
    Label → Option State
  | .fork i result =>
      match s.table[i]? with
      | none => none
      | some p => if p.status = .running then forkNext ids s i p result else none
  | .step i =>
      match s.table[i]? with
      | none => none
      | some p => if p.status = .running then stepNext s i p else none

/-- The program with a first process of any id. -/
def system
    (ids : ProcessTable.Ids) :
    TransitionSystem State Label :=
  .ofProgram
    (fun s => ∃ own pid, 0 < own ∧ own ≤ ids.greatest ∧
      s = { table := [first own pid], forks := [] })
    (fun _ _ => True) (next ids)

section Chain

/-- What the process `j` of the chain is at, given the process behind it. The last process
has not called `fork` yet, or its call has failed; all others have a child. -/
inductive Stage
    (failed : Bool)
    (j : Nat)
    (p : Process) :
    Option (Process) → Prop
  | born
      (hfailed : failed = false)
      (hstatus : p.status = .running)
      (hmemory : p.memory = ⟨.count, j, 0, []⟩) :
      Stage failed j p none
  | looping
      (hfailed : failed = false)
      (hstatus : p.status = .running)
      (hmemory : p.memory = ⟨.loop, j + 1, 0, []⟩) :
      Stage failed j p none
  | forking
      (pid : Int)
      (hfailed : failed = false)
      (hstatus : p.status = .running)
      (hmemory : p.memory = ⟨.fork, j + 1, pid, []⟩) :
      Stage failed j p none
  | refused
      (pc : Pc)
      (hpc : pc = .count ∨ pc = .loop ∨ pc = .branch ∨ pc = .printf)
      (hfailed : failed = true)
      (hstatus : p.status = .running)
      (hmemory : p.memory = ⟨pc, j + 1, -1, []⟩) :
      Stage failed j p none
  | printed
      (hfailed : failed = true)
      (hmemory : p.memory = ⟨.return0, j + 1, -1, [(j + 1 : Int)]⟩) :
      Stage failed j p none
  | counting
      (q : Process)
      (hbelow : q.status ≠ .reaped)
      (hstatus : p.status = .running)
      (hmemory : p.memory = ⟨.count, j + 1, q.pid, []⟩) :
      Stage failed j p (some q)
  | waiting
      (q : Process)
      (pc : Pc)
      (hpc : pc = .loop ∨ pc = .branch ∨ pc = .waitpid)
      (hbelow : q.status ≠ .reaped)
      (hstatus : p.status = .running)
      (hmemory : p.memory = ⟨pc, j + 2, q.pid, []⟩) :
      Stage failed j p (some q)
  | returned
      (q : Process)
      (hreaped : q.status = .reaped)
      (hmemory : p.memory = ⟨.return0, j + 2, q.pid, []⟩) :
      Stage failed j p (some q)

/-- Each process is the parent of the one behind it, and their ids are different. -/
structure Linked
    (ids : ProcessTable.Ids)
    (table : List Process) :
    Prop where
  nonempty : 0 < table.length
  parents : ∀ j p q, table[j]? = some p → table[j + 1]? = some q → q.parent = some p.pid
  nodup : (ProcessTable.pids table).Nodup
  range : ∀ p ∈ table, 0 < p.pid ∧ p.pid ≤ ids.greatest

/-- The processes form a chain of which the last one has not forked. -/
structure Chain
    (ids : ProcessTable.Ids)
    (failed : Bool)
    (s : State) :
    Prop where
  linked : Linked ids s.table
  stages : ∀ j p, s.table[j]? = some p → Stage failed j p s.table[j + 1]?
  forks : s.forks = List.replicate (s.table.length - 1) true ++
    if failed then [false] else []

variable {ids : ProcessTable.Ids} {failed failed' : Bool} {s t : State} {i j : Nat}
variable {p q r : Process}
variable {below : Option Process} {table table' : List Process}

/-- A parent does not see how its child goes on, as long as it has not waited for it. -/
theorem Stage.congr_below
    (h : Stage failed j r (some p))
    (hp : p.status ≠ .reaped)
    (hq : q.status ≠ .reaped)
    (hpid : q.pid = p.pid) :
    Stage failed j r (some q) := by
  cases h with
  | counting _ _ hrunning hmemory =>
      exact .counting q hq hrunning (by rw [hmemory, hpid])
  | waiting _ pc hpc _ hrunning hmemory =>
      exact .waiting q pc hpc hq hrunning (by rw [hmemory, hpid])
  | returned _ hreaped _ =>
      exact absurd hreaped hp

/-- A process with a child does not see whether the last call of `fork` has failed. -/
theorem Stage.congr_failed
    (h : Stage failed j r (some p))
    (failed' : Bool) :
    Stage failed' j r (some p) := by
  cases h with
  | counting _ hbelow hrunning hmemory =>
      exact .counting p hbelow hrunning hmemory
  | waiting _ pc hpc hbelow hrunning hmemory =>
      exact .waiting p pc hpc hbelow hrunning hmemory
  | returned _ hreaped hmemory =>
      exact .returned p hreaped hmemory

/-- Behind its `return` a process only ends. -/
theorem Stage.congr_status
    (h : Stage failed j p below)
    (hreturned : p.memory.pc = .return0 ∨ p.status ≠ .running)
    (status : ProcessTable.Status) :
    Stage failed j { p with status := status } below := by
  cases h with
  | printed hfailed hmemory =>
      exact .printed hfailed hmemory
  | returned q hreaped hmemory =>
      exact .returned q hreaped hmemory
  | refused pc hpc _ hstatus hmemory =>
      rw [hmemory] at hreturned
      rcases hpc with rfl | rfl | rfl | rfl <;> simp [hstatus] at hreturned
  | waiting q pc hpc _ hstatus hmemory =>
      rw [hmemory] at hreturned
      rcases hpc with rfl | rfl | rfl <;> simp [hstatus] at hreturned
  | _ =>
      simp_all

/-- The counter stays in the range of `int`, because the ids are of that type too. -/
theorem Stage.local
    (h : Stage failed j p below)
    (hstatus : p.status = .running)
    (hle : j + 1 ≤ 2 ^ 31 - 1)
    (hbelow : ∀ q, below = some q → 0 < q.pid ∧ j + 2 ≤ 2 ^ 31 - 1)
    {m : Main}
    (hm : localNext p.memory = some m) :
    Stage failed j { p with memory := m } below := by
  have hint (n : Nat) (hn : n ≤ 2 ^ 31 - 1) : toInt32 (n : Int) = n :=
    toInt32_of_le (Int.ofNat_le.mpr hn)
  cases h with
  | born hfailed _ hmemory =>
      have hchild : (0 : Int) ≠ -1 := by decide
      have hsum : toInt32 ((j : Int) + 1) = (j : Int) + 1 := hint (j + 1) hle
      rw [hmemory] at hm
      simp only [localNext, if_pos hchild, Option.some.injEq] at hm
      subst hm
      exact .looping hfailed hstatus (congrArg (Main.mk .loop · 0 []) hsum)
  | looping hfailed _ hmemory =>
      rw [hmemory] at hm
      cases hm
      exact .forking 0 hfailed hstatus rfl
  | forking pid hfailed _ hmemory =>
      rw [hmemory] at hm
      cases hm
  | refused pc hpc hfailed _ hmemory =>
      rw [hmemory] at hm
      rcases hpc with rfl | rfl | rfl | rfl
      · cases hm
        exact .refused .loop (Or.inr (Or.inl rfl)) hfailed hstatus rfl
      · cases hm
        exact .refused .branch (Or.inr (Or.inr (Or.inl rfl))) hfailed hstatus rfl
      · cases hm
        exact .refused .printf (Or.inr (Or.inr (Or.inr rfl))) hfailed hstatus rfl
      · cases hm
        exact .printed hfailed rfl
  | printed hfailed hmemory =>
      rw [hmemory] at hm
      cases hm
  | counting q hq _ hmemory =>
      obtain ⟨hpos, hlast⟩ := hbelow q rfl
      have hchild : (q.pid : Int) ≠ -1 := by omega
      have hsum : toInt32 ((j : Int) + 1 + 1) = (j : Int) + 2 := hint (j + 2) hlast
      rw [hmemory] at hm
      simp only [localNext, if_pos hchild, Option.some.injEq] at hm
      subst hm
      exact .waiting q .loop (Or.inl rfl) hq hstatus (congrArg (Main.mk .loop · q.pid []) hsum)
  | waiting q pc hpc hq _ hmemory =>
      obtain ⟨hpos, -⟩ := hbelow q rfl
      rw [hmemory] at hm
      rcases hpc with rfl | rfl | rfl
      · have hchild : ¬(q.pid : Int) = 0 := by omega
        simp only [localNext, if_neg hchild, Option.some.injEq] at hm
        subst hm
        exact .waiting q .branch (Or.inr (Or.inl rfl)) hq hstatus rfl
      · have hchild : (q.pid : Int) > 0 := by omega
        simp only [localNext, if_pos hchild, Option.some.injEq] at hm
        subst hm
        exact .waiting q .waitpid (Or.inr (Or.inr rfl)) hq hstatus rfl
      · cases hm
  | returned q hreaped hmemory =>
      rw [hmemory] at hm
      cases hm

theorem origins_setMemory
    (hi : table[i]? = some p)
    (m : Main) :
    (setMemory table i p m).map ProcessTable.Entry.origin =
      table.map ProcessTable.Entry.origin := by
  have horigin : ProcessTable.Entry.origin { p with memory := m } = p.origin := rfl
  exact ProcessTable.origins_set hi horigin

theorem Linked.congr
    (h : Linked ids table)
    (horigins : table'.map ProcessTable.Entry.origin =
      table.map ProcessTable.Entry.origin) :
    Linked ids table' := by
  have hlength := congrArg List.length horigins
  rw [List.length_map, List.length_map] at hlength
  have hold (j : Nat) (r : Process) (hr : table'[j]? = some r) :
      ∃ r', table[j]? = some r' ∧ r'.origin = r.origin := by
    have horigin := congrArg (fun origins => origins[j]?) horigins
    simp only [List.getElem?_map, hr] at horigin
    exact Option.map_eq_some_iff.mp horigin.symm
  refine ⟨?_, fun j r r' hr hr' => ?_, ?_, fun r hr => ?_⟩
  · rw [hlength]
    exact h.nonempty
  · obtain ⟨u, hu, hupid⟩ := hold j r hr
    obtain ⟨u', hu', huparent⟩ := hold (j + 1) r' hr'
    have hparent := h.parents j u u' hu hu'
    have hpid : u.pid = r.pid := (Prod.mk.inj hupid).1
    rw [← (Prod.mk.inj huparent).2, hparent, hpid]
  · rw [ProcessTable.pids_eq_of_origins horigins]
    exact h.nodup
  · obtain ⟨k, hk, hget⟩ := List.mem_iff_getElem.mp hr
    obtain ⟨u, hu, hupid⟩ := hold k r (List.getElem?_eq_some_iff.mpr ⟨hk, hget⟩)
    have hrange := h.range u (List.mem_of_getElem? hu)
    have hpid : u.pid = r.pid := (Prod.mk.inj hupid).1
    rwa [hpid] at hrange

theorem chain_first
    {own : Nat}
    (hpos : 0 < own)
    (hle : own ≤ ids.greatest)
    (pid : Int) :
    Chain ids false { table := [first own pid], forks := [] } := by
  refine ⟨⟨Nat.one_pos, fun j p q _ hq => ?_, List.nodup_singleton own, fun p hp => ?_⟩,
    fun j p hp => ?_, rfl⟩
  · cases hq
  · rw [List.mem_singleton.mp hp]
    exact ⟨hpos, hle⟩
  · cases j with
    | zero =>
        cases hp
        exact .forking pid rfl rfl rfl
    | succ j =>
        cases hp

/-- A process without a child is the last one. -/
theorem eq_length_of_none
    (hi : table[i]? = some p)
    (hnone : table[i + 1]? = none) :
    i + 1 = table.length := by
  have hlt := (List.getElem?_eq_some_iff.mp hi).1
  have hle := List.getElem?_eq_none_iff.mp hnone
  omega

theorem getElem?_set_entry
    (hi : table[i]? = some p)
    (q : Process)
    (k : Nat) :
    (table.set i q)[k]? = if k = i then some q else table[k]? := by
  have hlt := (List.getElem?_eq_some_iff.mp hi).1
  split_ifs with hself
  · rw [hself, List.getElem?_set_self hlt]
  · exact List.getElem?_set_ne (Ne.symm hself)

/-- A table whose last entry has changed, with one more behind it. -/
theorem getElem?_set_append
    (hi : table[i]? = some p)
    (hlast : i + 1 = table.length)
    (q c : Process)
    (k : Nat) :
    (table.set i q ++ [c])[k]? =
      if k = i then some q else if k = i + 1 then some c else table[k]? := by
  have hlength : (table.set i q).length = i + 1 := by
    rw [List.length_set, hlast]
  rcases Nat.lt_trichotomy k (i + 1) with hlt | rfl | hgt
  · rw [List.getElem?_append_left (by omega), getElem?_set_entry hi]
    split_ifs with _ hchild
    · rfl
    · omega
    · rfl
  · rw [← hlength, List.getElem?_concat_length, if_neg (by omega), if_pos rfl]
  · rw [List.getElem?_eq_none (by rw [List.length_append, List.length_singleton]; omega),
      if_neg (by omega), if_neg (by omega), List.getElem?_eq_none (by omega)]

/-- A process in front of one that has changed, but is not reaped. -/
theorem Chain.stage_above
    (h : Chain ids failed s)
    (hi : s.table[i]? = some p)
    (hp : p.status ≠ .reaped)
    (hq : q.status ≠ .reaped)
    (hpid : q.pid = p.pid)
    (hj : s.table[j]? = some r) :
    Stage failed j r (if j + 1 = i then some q else s.table[j + 1]?) := by
  have hold := h.stages j r hj
  split_ifs with habove
  · rw [habove, hi] at hold
    exact hold.congr_below hp hq hpid
  · exact hold

/-- The entry of a running process has changed. -/
theorem Chain.set
    (h : Chain ids failed s)
    (hi : s.table[i]? = some p)
    (hp : p.status ≠ .reaped)
    (hq : q.status ≠ .reaped)
    (horigin : q.origin = p.origin)
    (hstage : Stage failed' i q s.table[i + 1]?)
    (hflag : failed' = failed ∨ s.table[i + 1]? = none)
    {forks : List Bool}
    (hforks : forks = List.replicate (s.table.length - 1) true ++
      if failed' then [false] else []) :
    Chain ids failed' { table := s.table.set i q, forks := forks } where
  linked := h.linked.congr (ProcessTable.origins_set hi horigin)
  stages := by
    intro j r hr
    rw [getElem?_set_entry hi] at hr ⊢
    by_cases hself : j = i
    · subst hself
      rw [if_pos rfl] at hr
      cases hr
      rw [if_neg (Nat.succ_ne_self j)]
      exact hstage
    · rw [if_neg hself] at hr
      have hold := h.stage_above hi hp hq (Prod.mk.inj horigin).1 hr
      rcases hflag with rfl | hnone
      · exact hold
      · -- The process `i` is the last one, so this one has a child.
        have hlast := eq_length_of_none hi hnone
        have hj := (List.getElem?_eq_some_iff.mp hr).1
        split_ifs at hold ⊢
        · exact hold.congr_failed failed'
        · rw [List.getElem?_eq_getElem (by omega : j + 1 < s.table.length)] at hold ⊢
          exact hold.congr_failed failed'
  forks := by
    rw [List.length_set]
    exact hforks

/-- In front of a process that has not been waited for all processes are running. -/
theorem Chain.running
    (h : Chain ids failed s)
    (hi : s.table[i]? = some p)
    (hp : p.status ≠ .reaped)
    (hj : s.table[j]? = some r)
    (hlt : j < i) :
    r.status = .running := by
  induction i generalizing p with
  | zero =>
      cases hlt
  | succ i ih =>
      have hbound := (List.getElem?_eq_some_iff.mp hi).1
      obtain ⟨q, hq⟩ : ∃ q, s.table[i]? = some q :=
        ⟨_, List.getElem?_eq_getElem (by omega)⟩
      have hrunning : q.status = .running := by
        have hstage := h.stages i q hq
        rw [hi] at hstage
        cases hstage with
        | counting _ _ hstatus _ =>
            exact hstatus
        | waiting _ _ _ _ hstatus _ =>
            exact hstatus
        | returned _ hreaped _ =>
            exact absurd hreaped hp
      rcases Nat.lt_or_eq_of_le (Nat.le_of_lt_succ hlt) with hless | rfl
      · exact ih hq (ProcessTable.unreaped_of_running hrunning) hless
      · rw [hq] at hj
        cases hj
        exact hrunning

/-- At `fork` a process has no child, and no call has failed. -/
theorem Stage.at_fork
    (h : Stage failed j p below)
    (hpc : p.memory.pc = .fork) :
    failed = false ∧ below = none ∧ ∃ pid, p.memory = ⟨.fork, j + 1, pid, []⟩ := by
  cases h with
  | forking pid hfailed _ hmemory =>
      exact ⟨hfailed, rfl, pid, hmemory⟩
  | refused pc hpc' _ _ hmemory =>
      rw [hmemory] at hpc
      rcases hpc' with rfl | rfl | rfl | rfl <;> cases hpc
  | waiting q pc hpc' _ _ hmemory =>
      rw [hmemory] at hpc
      rcases hpc' with rfl | rfl | rfl <;> cases hpc
  | _ =>
      simp_all

/-- At `waitpid` a process asks for its child. -/
theorem Stage.at_waitpid
    (h : Stage failed j p below)
    (hpc : p.memory.pc = .waitpid) :
    ∃ q, below = some q ∧ q.status ≠ .reaped ∧ p.memory = ⟨.waitpid, j + 2, q.pid, []⟩ := by
  cases h with
  | waiting q pc hpc' hq _ hmemory =>
      refine ⟨q, rfl, hq, ?_⟩
      rw [hmemory] at hpc ⊢
      rw [show pc = .waitpid from hpc]
  | refused pc hpc' _ _ hmemory =>
      rw [hmemory] at hpc
      rcases hpc' with rfl | rfl | rfl | rfl <;> cases hpc
  | _ =>
      simp_all

/-- A call of `fork` that fails ends the chain. -/
theorem Chain.fork_failed
    (h : Chain ids failed s)
    (hi : s.table[i]? = some p)
    (hstatus : p.status = .running)
    (hpc : p.memory.pc = .fork) :
    Chain ids true
      { table := setMemory s.table i p { p.memory with pid := -1, pc := .count }
        forks := s.forks ++ [false] } := by
  obtain ⟨hfailed, hnone, x, hmemory⟩ := (h.stages i p hi).at_fork hpc
  have hrunning := ProcessTable.unreaped_of_running hstatus
  refine Chain.set (q := { p with memory := { p.memory with pid := -1, pc := .count } })
    h hi hrunning hrunning rfl ?_ (Or.inr hnone) ?_
  · rw [hnone]
    refine .refused .count (Or.inl rfl) rfl hstatus ?_
    simp only [hmemory]
  · rw [h.forks, hfailed]
    simp

/-- A child of the last process, with a new id. -/
theorem Linked.append
    (h : Linked ids table)
    (hi : table[i]? = some p)
    (hlast : i + 1 = table.length)
    (hunreaped : ∀ r ∈ table, r.status ≠ .reaped)
    {pid : Nat}
    (hfresh : ProcessTable.Fresh ids table pid)
    (m : Main) :
    Linked ids (table ++ [ProcessTable.forked p pid m]) where
  nonempty := by
    rw [List.length_append]
    exact Nat.succ_pos _
  parents := by
    intro j r r' hr hr'
    have hj := (List.getElem?_eq_some_iff.mp hr').1
    rw [List.length_append, List.length_singleton] at hj
    rw [List.getElem?_append_left (by omega)] at hr
    rcases Nat.lt_or_eq_of_le (Nat.le_of_lt_succ hj) with hlt | hbehind
    · rw [List.getElem?_append_left hlt] at hr'
      exact h.parents j r r' hr hr'
    · obtain rfl : j = i := by omega
      rw [hlast, List.getElem?_concat_length] at hr'
      rw [hi] at hr
      cases hr
      cases hr'
      rfl
  nodup := by
    rw [ProcessTable.pids, List.map_append]
    exact ProcessTable.nodup_pids_append h.nodup hunreaped hfresh
  range := by
    intro r hr
    rcases List.mem_append.mp hr with hr | hr
    · exact h.range r hr
    · rw [List.mem_singleton.mp hr]
      exact ⟨hfresh.1, hfresh.2.1⟩

/-- At a call of `fork` nothing has been waited for. -/
theorem Chain.unreaped
    (h : Chain ids failed s)
    (hi : s.table[i]? = some p)
    (hlast : i + 1 = s.table.length)
    (hp : p.status ≠ .reaped) :
    ∀ r ∈ s.table, r.status ≠ .reaped := by
  intro r hr
  obtain ⟨k, hk, hget⟩ := List.mem_iff_getElem.mp hr
  have hkr : s.table[k]? = some r := List.getElem?_eq_some_iff.mpr ⟨hk, hget⟩
  rcases Nat.lt_or_eq_of_le (Nat.le_of_lt_succ (hlast ▸ hk)) with hlt | rfl
  · exact ProcessTable.unreaped_of_running (h.running hi hp hkr hlt)
  · rw [hi] at hkr
    cases hkr
    exact hp

/-- A call of `fork` that succeeds makes the chain longer. -/
theorem Chain.fork_succeeded
    (h : Chain ids failed s)
    (hi : s.table[i]? = some p)
    (hstatus : p.status = .running)
    (hpc : p.memory.pc = .fork)
    {pid : Nat}
    (hfresh : ProcessTable.Fresh ids s.table pid) :
    Chain ids failed
      { table := setMemory s.table i p { p.memory with pid := pid, pc := .count } ++
          [ProcessTable.forked p pid { p.memory with pid := 0, pc := .count }]
        forks := s.forks ++ [true] } := by
  obtain ⟨hfailed, hnone, x, hmemory⟩ := (h.stages i p hi).at_fork hpc
  have hlength := eq_length_of_none hi hnone
  have hrunning := ProcessTable.unreaped_of_running hstatus
  have hunreaped := h.unreaped hi hlength hrunning
  refine ⟨?_, fun j r hr => ?_, ?_⟩
  · have hlinked := h.linked.append hi hlength hunreaped hfresh
      { p.memory with pid := 0, pc := .count }
    refine hlinked.congr ?_
    rw [List.map_append, List.map_append, origins_setMemory hi]
  · have hentry := getElem?_set_append hi hlength
      { p with memory := { p.memory with pid := pid, pc := .count } }
      (ProcessTable.forked p pid { p.memory with pid := 0, pc := .count })
    change (setMemory s.table i p _ ++ [_])[j]? = some r at hr
    change Stage failed j r (setMemory s.table i p _ ++ [_])[j + 1]?
    rw [setMemory, hentry] at hr ⊢
    by_cases hself : j = i
    · subst hself
      rw [if_pos rfl] at hr
      cases hr
      rw [if_neg (Nat.succ_ne_self j), if_pos rfl]
      refine .counting _ (by simp [ProcessTable.forked]) hstatus ?_
      simp only [hmemory, ProcessTable.forked]
    · rw [if_neg hself] at hr
      by_cases hchild : j = i + 1
      · rw [if_pos hchild] at hr
        cases hr
        rw [if_neg (by omega), if_neg (by omega), List.getElem?_eq_none (by omega)]
        refine .born hfailed rfl ?_
        simp only [hmemory, ProcessTable.forked, hchild, Int.natCast_add, Int.natCast_one]
      · rw [if_neg hchild] at hr
        rw [if_neg (fun hsame : j + 1 = i + 1 => hself (Nat.succ.inj hsame))]
        exact h.stage_above hi hrunning hrunning rfl hr
  · change s.forks ++ [true] = _
    rw [h.forks, hfailed, setMemory, List.length_append, List.length_set, ← hlength]
    simp only [List.length_singleton, Nat.add_sub_cancel, Bool.false_eq_true, if_false,
      List.append_nil, List.replicate_succ']

/-- The child of a process is no longer a zombie, and the process returns. -/
theorem Chain.reap
    (h : Chain ids failed s)
    (hi : s.table[i]? = some p)
    (hrunning : p.status ≠ .reaped)
    (hpc : p.memory.pc = .waitpid)
    (hq : s.table[i + 1]? = some q)
    (hzombie : q.status = .zombie) :
    Chain ids failed
      { s with
        table := setMemory (s.table.set (i + 1) { q with status := .reaped }) i p
          { p.memory with pc := .return0 } } := by
  obtain ⟨q', hbelow, -, hmemory⟩ := (h.stages i p hi).at_waitpid hpc
  rw [hq] at hbelow
  cases hbelow
  have hparent : (s.table.set (i + 1) { q with status := .reaped })[i]? = some p := by
    rw [getElem?_set_entry hq, if_neg (Nat.succ_ne_self i).symm]
    exact hi
  refine ⟨?_, fun j r hr => ?_, ?_⟩
  · refine h.linked.congr ?_
    have horigin : ProcessTable.Entry.origin { q with status := .reaped } = q.origin := rfl
    rw [origins_setMemory hparent, ProcessTable.origins_set hq horigin]
  · change (setMemory (s.table.set (i + 1) _) i p _)[j]? = some r at hr
    change Stage failed j r (setMemory (s.table.set (i + 1) _) i p _)[j + 1]?
    rw [setMemory, getElem?_set_entry hparent, getElem?_set_entry hq] at hr ⊢
    by_cases hself : j = i
    · subst hself
      rw [if_pos rfl] at hr
      cases hr
      rw [if_neg (Nat.succ_ne_self j), if_pos rfl]
      refine .returned _ rfl ?_
      simp only [hmemory]
    · rw [if_neg hself] at hr
      by_cases hchild : j = i + 1
      · subst hchild
        rw [if_pos rfl] at hr
        cases hr
        rw [if_neg (by omega), if_neg (Nat.succ_ne_self _)]
        refine (h.stages (i + 1) q hq).congr_status (Or.inr ?_) .reaped
        rw [hzombie]
        decide
      · rw [if_neg hchild] at hr
        rw [if_neg (fun hsame : j + 1 = i + 1 => hself (Nat.succ.inj hsame))]
        exact h.stage_above hi hrunning hrunning rfl hr
  · change s.forks = _
    rw [setMemory, List.length_set, List.length_set]
    exact h.forks

theorem Chain.step
    (h : Chain ids failed s)
    (hi : s.table[i]? = some p)
    (hstatus : p.status = .running)
    (hnext : stepNext s i p = some t) :
    Chain ids failed t := by
  have hstage := h.stages i p hi
  have hrunning := ProcessTable.unreaped_of_running hstatus
  have hkeep (q : Process) (hq : q.status ≠ .reaped) (horigin : q.origin = p.origin)
      (hnew : Stage failed i q s.table[i + 1]?) :
      Chain ids failed { s with table := s.table.set i q } :=
    h.set hi hrunning hq horigin hnew (Or.inl rfl) h.forks
  have hlocal (m : Main) (hm : localNext p.memory = some m) :
      Chain ids failed { s with table := setMemory s.table i p m } := by
    have hbound := (ProcessTable.length_le_greatest h.linked.nodup h.linked.range).trans
      ids.fits
    have hlt := (List.getElem?_eq_some_iff.mp hi).1
    refine hkeep { p with memory := m } hrunning rfl (hstage.local hstatus (by omega) ?_ hm)
    intro q hq
    have hlt' := (List.getElem?_eq_some_iff.mp hq).1
    exact ⟨(h.linked.range q (List.mem_of_getElem? hq)).1, by omega⟩
  rw [stepNext] at hnext
  split at hnext
  · cases hnext
  · next hpc =>
      obtain ⟨q, hbelow, hq, hmemory⟩ := hstage.at_waitpid hpc
      have hwait := ProcessTable.waitpid_of_child h.linked.nodup hbelow
        (h.linked.parents i p q hi hbelow) hq
      rw [show p.memory.pid = q.pid by rw [hmemory], hwait] at hnext
      by_cases hzombie : q.status = .zombie
      · rw [if_pos hzombie] at hnext
        cases hnext
        exact h.reap hi hrunning hpc hbelow hzombie
      · rw [if_neg hzombie] at hnext
        cases hnext
  · next hpc =>
      cases hnext
      exact hkeep { p with status := .zombie } (by simp) rfl
        (hstage.congr_status (Or.inl hpc) .zombie)
  · obtain ⟨m, hm, rfl⟩ := Option.map_eq_some_iff.mp hnext
    exact hlocal m hm

/-- One step of any process. -/
theorem Chain.any_step
    (h : Chain ids failed s)
    {a : Label}
    (hnext : next ids s a = some t) :
    ∃ failed', Chain ids failed' t := by
  cases a with
  | fork i result =>
      rw [next] at hnext
      split at hnext
      · cases hnext
      · next p hi =>
          split_ifs at hnext with hstatus
          unfold forkNext at hnext
          split_ifs at hnext with hpc
          cases result with
          | none =>
              cases hnext
              exact ⟨true, h.fork_failed hi hstatus hpc⟩
          | some pid =>
              dsimp only at hnext
              split_ifs at hnext with hfresh
              cases hnext
              exact ⟨failed, h.fork_succeeded hi hstatus hpc hfresh⟩
  | step i =>
      rw [next] at hnext
      split at hnext
      · cases hnext
      · next p hi =>
          split_ifs at hnext with hstatus
          exact ⟨failed, h.step hi hstatus hnext⟩

theorem chain_of_reachable
    (hs : (system ids).Reachable s) :
    ∃ failed, Chain ids failed s := by
  refine hs.invariant (I := fun s => ∃ failed, Chain ids failed s) (fun s hinit => ?_)
    (fun s a t h hstep => ?_)
  · obtain ⟨own, pid, hpos, hle, rfl⟩ := hinit
    exact ⟨false, chain_first hpos hle pid⟩
  · obtain ⟨failed, hchain⟩ := h
    exact hchain.any_step hstep.2

end Chain

end ForkChain
end ForkAndExec
end OsSeminars
