import OsSeminars.Foundation.CString
import OsSeminars.Foundation.ForkedOutput
import OsSeminars.Foundation.Numeral

/-!
# 13-fork-and-exec: what the examples of `fork` print

In `simple-fork-example.c` the parent waits for the child, in `zombie.c` and `orphan.c` it
does not; `orphan.c` lets the child print the id of its parent, and `fflush.c` prints a text
without a line break in front of `fork`. For each of them the outputs that can appear are
listed, for a terminal and for any other file.
-/

namespace OsSeminars
namespace ForkAndExec

open Foundation
open ForkedOutput
open CString (literal)
open Numeral (decimal)

/-- The ids of the two processes, and of the one that takes over orphans. -/
structure Pids where
  parent : Nat
  child : Nat
  init : Nat

/-- `"child process mypid=%d\n"` -/
def childLine
    (pids : Pids) :
    List UInt8 :=
  literal "child process mypid=" ++ decimal pids.child ++ [10]

/-- `"parent process, mypid=%d, childpid=%d\n"` -/
def parentLine
    (pids : Pids) :
    List UInt8 :=
  literal "parent process, mypid=" ++ decimal pids.parent ++ literal ", childpid=" ++
    decimal pids.child ++ [10]

variable {terminal : Bool} {pids : Pids} {output : List UInt8}

@[simp] theorem endsLine_childLine :
    OutStream.EndsLine (childLine pids) :=
  ⟨_, rfl⟩

@[simp] theorem endsLine_parentLine :
    OutStream.EndsLine (parentLine pids) :=
  ⟨_, rfl⟩

namespace SimpleForkExample

/-- `"child exit status %d\n"` -/
def statusLine
    (status : Nat) :
    List UInt8 :=
  literal "child exit status " ++ decimal status ++ [10]

@[simp] theorem endsLine_statusLine
    (status : Nat) :
    OutStream.EndsLine (statusLine status) :=
  ⟨_, rfl⟩

/-- `main`, where `waitpid` does not fail: there is a child, and no signal is handled. -/
def program
    (terminal : Bool)
    (pids : Pids) :
    Program where
  terminal := terminal
  stream := .fresh
  parent := [.printf fun _ => parentLine pids]
  wait := some [.printf statusLine]
  child := [.printf fun _ => childLine pids]
  failed := []
  parentPid := pids.parent
  initPid := pids.init
  status := 1

/-- The status line is the last one and shows `1`. The lines in front of it appear in either
order on a terminal, and the child's line comes first elsewhere. -/
theorem outputs_awaited
    (terminal : Bool)
    (pids : Pids)
    (output : List UInt8) :
    (∃ t, (system (program terminal pids) true).Reachable t ∧ t.Finished ∧
        t.output = output) ↔
      output = childLine pids ++ parentLine pids ++ statusLine 1 ∨
        (terminal = true ∧ output = parentLine pids ++ childLine pids ++ statusLine 1) := by
  rw [exists_finished_iff]
  simp only [Remaining, start, program, BeforeWait]
  cases terminal with
  | false =>
      simp
  | true =>
      simp [joined_cons_cons_iff]
      exact or_comm

end SimpleForkExample

namespace Zombie

/-- `main`. -/
def program
    (terminal : Bool)
    (pids : Pids) :
    Program where
  terminal := terminal
  stream := .fresh
  parent := [.printf fun _ => parentLine pids, .sleep]
  wait := none
  child := [.printf fun _ => childLine pids]
  failed := []
  parentPid := pids.parent
  initPid := pids.init
  status := 0

/-- The two lines appear in either order, whether on a terminal or not. -/
theorem outputs_unawaited
    (terminal : Bool)
    (pids : Pids)
    (output : List UInt8) :
    (∃ t, (system (program terminal pids) true).Reachable t ∧ t.Finished ∧
        t.output = output) ↔
      output = parentLine pids ++ childLine pids ∨
        output = childLine pids ++ parentLine pids := by
  rw [exists_finished_iff]
  simp only [Remaining, start, program, Unawaited]
  constructor
  · rintro ⟨k, front, hjoined, rfl⟩
    rcases k with _ | _ | k <;> cases terminal <;>
      simp [joined_cons_cons_iff] at hjoined ⊢ <;>
      simp [hjoined]
  · rintro (rfl | rfl)
    · refine ⟨0, ?_⟩
      cases terminal <;> simp
    · refine ⟨2, ?_⟩
      cases terminal <;> simp [joined_cons_cons_iff]

end Zombie

namespace Orphan

/-- `"my parent pid=%d\n"` -/
def ppidLine
    (ppid : Nat) :
    List UInt8 :=
  literal "my parent pid=" ++ decimal ppid ++ [10]

@[simp] theorem endsLine_ppidLine
    (ppid : Nat) :
    OutStream.EndsLine (ppidLine ppid) :=
  ⟨_, rfl⟩

/-- `main`. -/
def program
    (terminal : Bool)
    (pids : Pids) :
    Program where
  terminal := terminal
  stream := .fresh
  parent := [.printf fun _ => parentLine pids]
  wait := none
  child := [.printf fun _ => childLine pids, .sleep, .printf ppidLine]
  failed := []
  parentPid := pids.parent
  initPid := pids.init
  status := 0

/-- The outputs of the runs in which the parent is still there when the child asks for it,
and of those in which it has ended. -/
def Expected
    (terminal : Bool)
    (pids : Pids)
    (output : List UInt8) :
    Prop :=
  output = parentLine pids ++ childLine pids ++ ppidLine pids.init ∨
  output = parentLine pids ++ childLine pids ++ ppidLine pids.parent ∨
  output = childLine pids ++ ppidLine pids.parent ++ parentLine pids ∨
  (terminal = true ∧
    (output = childLine pids ++ parentLine pids ++ ppidLine pids.init ∨
      output = childLine pids ++ parentLine pids ++ ppidLine pids.parent))

/-- The child can ask for its parent at any point of the parent's run. -/
theorem outputs_orphaned
    (terminal : Bool)
    (pids : Pids)
    (output : List UInt8) :
    (∃ t, (system (program terminal pids) true).Reachable t ∧ t.Finished ∧
        t.output = output) ↔
      Expected terminal pids output := by
  rw [exists_finished_iff]
  simp only [Remaining, start, program, Unawaited, Expected]
  constructor
  · rintro ⟨k, front, hjoined, rfl⟩
    cases terminal with
    | false =>
        rcases k with _ | _ | _ | _ | k <;> simp at hjoined <;> subst hjoined <;> simp
    | true =>
        rcases k with _ | _ | _ | _ | k <;> simp [joined_cons_cons_iff] at hjoined
        · subst hjoined
          simp
        · rcases hjoined with rfl | rfl <;> simp
        · rcases hjoined with rfl | rfl <;> simp
        · rcases hjoined with rfl | ⟨rest, rfl, rfl | rfl⟩ <;> simp
        · rcases hjoined with rfl | ⟨rest, rfl, rfl | rfl⟩ <;> simp
  · rintro (rfl | rfl | rfl | ⟨rfl, rfl | rfl⟩)
    · refine ⟨0, ?_⟩
      cases terminal <;> simp
    · refine ⟨3, ?_⟩
      cases terminal <;> simp [joined_cons_cons_iff]
    · refine ⟨4, ?_⟩
      cases terminal <;> simp [joined_cons_cons_iff]
    · exact ⟨1, by simp [joined_cons_cons_iff]⟩
    · exact ⟨3, by simp [joined_cons_cons_iff]⟩

end Orphan

namespace Fflush

def helloWorld :
    List UInt8 :=
  literal "hello world"

/-- `printf` in front of `fork`: what is passed on, and the stream behind it. -/
def printed
    (terminal : Bool) :
    List UInt8 × OutStream :=
  OutStream.fresh.put terminal helloWorld

/-- `fork`, which may fail, and the end of `main`. -/
def program
    (terminal : Bool)
    (pids : Pids) :
    Program where
  terminal := terminal
  stream := (printed terminal).2
  parent := []
  wait := none
  child := []
  failed := []
  parentPid := pids.parent
  initPid := pids.init
  status := 0

/-- The text is printed once and appears twice, unless `fork` fails. -/
theorem outputs_twice
    (terminal forked : Bool)
    (pids : Pids)
    (output : List UInt8) :
    (∃ t, (system (program terminal pids) forked).Reachable t ∧ t.Finished ∧
        (printed terminal).1 ++ t.output = output) ↔
      output = if forked then helloWorld ++ helloWorld else helloWorld := by
  have hunfinished : (10 : UInt8) ∉ helloWorld := by decide
  obtain ⟨hnothing, hpending⟩ := OutStream.put_fresh_unfinished hunfinished terminal
  simp only [printed, hnothing, List.nil_append]
  rw [exists_finished_iff]
  simp only [Remaining, start, program, Unawaited]
  cases forked with
  | false =>
      simp [printed, hpending]
  | true =>
      constructor
      · rintro ⟨k, front, hjoined, rfl⟩
        rcases k with _ | k <;> simp [printed, hpending] at hjoined ⊢ <;> simp [hjoined]
      · rintro rfl
        exact ⟨0, by simp [printed, hpending]⟩

end Fflush

end ForkAndExec
end OsSeminars
