import Mathlib.Algebra.Ring.Nat
import Mathlib.Data.List.Perm.Subperm
import Mathlib.Data.List.Nodup

/-!
# Foundation: processes that fork and wait

The processes a program creates are listed in the order of their creation. A process
keeps its entry when it ends: it is a zombie until its parent has waited for it. The
memory of a process is a parameter.

Process ids are positive numbers of type `pid_t` up to a greatest one, which is a
parameter, and two processes that have not been waited for never share one. So a table in
which nothing has been waited for has at most as many entries as there are ids.
-/

namespace OsSeminars
namespace Foundation

universe u

namespace ProcessTable

inductive Status
  | running
  | zombie
  | reaped
  deriving DecidableEq

/-- A process with the id of its parent, if the parent is in the table too. -/
structure Entry (μ : Type u) where
  pid : Nat
  parent : Option Nat
  status : Status
  memory : μ

variable {μ : Type u}

/-- The ids that the kernel gives: all from 1 to a greatest one, a value of `pid_t`. -/
structure Ids where
  greatest : Nat
  fits : greatest ≤ 2 ^ 31 - 1

/-- The ids of a small Linux system, whose `pid_max` is 32768. -/
def Ids.linux : Ids :=
  ⟨32767, by decide⟩

/-- The ids of the processes. -/
def pids
    (table : List (Entry μ)) :
    List Nat :=
  table.map Entry.pid

/-- What an entry keeps for ever. -/
def Entry.origin
    (p : Entry μ) :
    Nat × Option Nat :=
  (p.pid, p.parent)

/-- The kernel can give this id to a new process. -/
def Fresh
    (ids : Ids)
    (table : List (Entry μ))
    (pid : Nat) :
    Prop :=
  0 < pid ∧ pid ≤ ids.greatest ∧ ∀ p ∈ table, p.status ≠ .reaped → p.pid ≠ pid

instance
    (ids : Ids)
    (table : List (Entry μ))
    (pid : Nat) :
    Decidable (Fresh ids table pid) :=
  inferInstanceAs (Decidable (_ ∧ _ ∧ _))

/-- The process that `fork` creates. -/
def forked
    (p : Entry μ)
    (pid : Nat)
    (memory : μ) :
    Entry μ where
  pid := pid
  parent := some p.pid
  status := .running
  memory := memory

/-- What `waitpid` does: it fails without such a child, blocks while the child runs, or
takes the child out of the zombies. -/
inductive Waited (μ : Type u)
  | noChild
  | blocked
  | reaped (table : List (Entry μ))

/-- `waitpid(pid, &status, 0)` of a parent for one of its children. -/
def waitpid
    (table : List (Entry μ))
    (parent : Nat)
    (pid : Int) :
    Waited μ :=
  match table.findIdx? fun q =>
      (q.pid : Int) = pid && q.parent = some parent && q.status ≠ .reaped with
  | none => .noChild
  | some c =>
      match table[c]? with
      | none => .noChild
      | some q =>
          if q.status = .zombie then .reaped (table.set c { q with status := .reaped })
          else .blocked

variable {ids : Ids} {table : List (Entry μ)} {p q : Entry μ} {i c pid : Nat}

theorem unreaped_of_running
    (h : p.status = .running) :
    p.status ≠ .reaped := by
  rw [h]
  exact Status.noConfusion

/-- A change of an entry that keeps its origin. -/
theorem origins_set
    (hi : table[i]? = some p)
    (horigin : q.origin = p.origin) :
    (table.set i q).map Entry.origin = table.map Entry.origin := by
  obtain ⟨hlt, hget⟩ := List.getElem?_eq_some_iff.mp hi
  have hlt' : i < (table.map Entry.origin).length := by
    rw [List.length_map]
    exact hlt
  have hsame : (table.map Entry.origin)[i] = q.origin := by
    rw [List.getElem_map, hget, horigin]
  rw [List.map_set, ← hsame, List.set_getElem_self]

theorem pids_eq_of_origins
    {table' : List (Entry μ)}
    (h : table'.map Entry.origin = table.map Entry.origin) :
    pids table' = pids table := by
  have hfst := congrArg (List.map Prod.fst) h
  rwa [List.map_map, List.map_map] at hfst

/-- A fresh id is new where nothing has been reaped. -/
theorem nodup_pids_append
    (hnodup : (pids table).Nodup)
    (hunreaped : ∀ p ∈ table, p.status ≠ .reaped)
    (hfresh : Fresh ids table pid) :
    (pids table ++ [pid]).Nodup := by
  refine List.nodup_append.mpr ⟨hnodup, List.nodup_singleton pid, ?_⟩
  intro a ha b hb
  obtain ⟨p, hp, rfl⟩ := List.mem_map.mp ha
  rw [List.mem_singleton.mp hb]
  exact hfresh.2.2 p hp (hunreaped p hp)

/-- There are at most as many processes with different ids as the kernel has ids. -/
theorem length_le_greatest
    (hnodup : (pids table).Nodup)
    (hrange : ∀ p ∈ table, 0 < p.pid ∧ p.pid ≤ ids.greatest) :
    table.length ≤ ids.greatest := by
  have hsub : pids table ⊆ List.range' 1 ids.greatest := by
    intro pid hpid
    obtain ⟨p, hp, rfl⟩ := List.mem_map.mp hpid
    obtain ⟨hpos, hle⟩ := hrange p hp
    rw [List.mem_range'_1]
    omega
  have hlength := (hnodup.subperm hsub).length_le
  rwa [pids, List.length_map, List.length_range'] at hlength

/-- Only a zombie is taken out of the table. -/
theorem zombie_of_waitpid
    {table' : List (Entry μ)}
    {parent : Nat}
    {wanted : Int}
    (h : waitpid table parent wanted = .reaped table') :
    ∃ c q, table[c]? = some q ∧ q.status = .zombie ∧
      table' = table.set c { q with status := .reaped } := by
  rw [waitpid] at h
  split at h
  · cases h
  · next c _ =>
      split at h
      · cases h
      · next q hq =>
          split_ifs at h with hzombie
          cases h
          exact ⟨c, q, hq, hzombie, rfl⟩

/-- Where the ids are different, a parent waits for the child it asks for. -/
theorem waitpid_of_child
    (hnodup : (pids table).Nodup)
    (hc : table[c]? = some q)
    {parent : Nat}
    (hparent : q.parent = some parent)
    (hstatus : q.status ≠ .reaped) :
    waitpid table parent q.pid =
      if q.status = .zombie then .reaped (table.set c { q with status := .reaped })
      else .blocked := by
  obtain ⟨hlt, hget⟩ := List.getElem?_eq_some_iff.mp hc
  have hfind : (table.findIdx? fun q' =>
      (q'.pid : Int) = q.pid && q'.parent = some parent && q'.status ≠ .reaped) =
        some c := by
    rw [List.findIdx?_eq_some_iff_getElem]
    refine ⟨hlt, ?_, fun j hj => ?_⟩
    · rw [hget]
      simp [hparent, hstatus]
    · have hne : (table[j].pid : Int) ≠ q.pid := by
        intro hsame
        have hj' : j < (pids table).length := by
          rw [pids, List.length_map]
          omega
        have hc' : c < (pids table).length := by
          rw [pids, List.length_map]
          exact hlt
        have hpids : (pids table)[j] = (pids table)[c] := by
          simp only [pids, List.getElem_map]
          rw [hget]
          exact Int.ofNat_inj.mp hsame
        exact absurd (hnodup.getElem_inj_iff.mp hpids) (by omega)
      simp [hne]
  rw [waitpid, hfind]
  dsimp only
  rw [hc]

end ProcessTable

end Foundation
end OsSeminars
