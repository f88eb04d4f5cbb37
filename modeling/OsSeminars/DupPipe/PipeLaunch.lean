import OsSeminars.Foundation.Fallible
import OsSeminars.Foundation.FdTable

/-!
# `pipe-launch.c`: the descriptors of a launched command

The program opens the input file, makes it the standard input, creates a pipe
and forks. The child makes the write end its standard output and executes the
command; the parent reads what the command writes.

The model follows the descriptor tables of the two processes from an arbitrary
inherited table on. When descriptor `0` is free, the input file is opened as
descriptor `0`, `dup2` has nothing to do, and the close that follows takes the
standard input away again. With descriptor `0` in use everything is as intended,
whatever else is open or closed.
-/

namespace OsSeminars
namespace DupPipe
namespace PipeLaunch

open Foundation

universe u

/-- What a descriptor of the program refers to. -/
inductive Description (α : Type u)
  | inherited (a : α)
  | inputFile
  | readEnd
  | writeEnd
  deriving DecidableEq

/-- `STDIN_FILENO`. -/
def stdinFileno : Nat := 0

/-- `STDOUT_FILENO`. -/
def stdoutFileno : Nat := 1

/-- Which calls succeed as far as it does not depend on the descriptors. -/
structure Calls where
  openInput : Bool
  dup2Input : Bool
  pipe : Bool
  fork : Bool
  dup2Output : Bool

/-- The result of a call that may fail: `perror` and `return 1`. -/
def checked
    {β : Type u}
    (succeeds : Bool)
    (result : Option β) :
    Except Nat β :=
  match succeeds, result with
  | true, some b => .ok b
  | _, _ => .error 1

section Program

variable {α : Type u} (calls : Calls)

/-- From `open` to `fork`: the table both processes have then, and the two
elements of `pipe_fds`. -/
def beforeFork
    (t : FdTable (Description α)) :
    Except Nat (Nat × Nat × FdTable (Description α)) := do
  let (inFd, t) ← checked calls.openInput (t.alloc .inputFile)
  let t ← checked calls.dup2Input (t.dup2 inFd stdinFileno)
  let t := t.close inFd
  let fds ← checked calls.pipe (t.pipe .readEnd .writeEnd)
  if calls.fork then .ok fds else .error 1

/-- The branch of the child, up to `execlp`. -/
def childBranch
    (r w : Nat)
    (t : FdTable (Description α)) :
    Except Nat (FdTable (Description α)) := do
  let t := t.close r
  let t ← checked calls.dup2Output (t.dup2 w stdoutFileno)
  .ok (t.close w)

/-- The branch of the parent, up to the loop that reads. -/
def parentBranch
    (w : Nat)
    (t : FdTable (Description α)) :
    FdTable (Description α) :=
  t.close w

/-- The program on an inherited table: the table of the child at `execlp` and the
one of the parent while it reads. -/
def main
    (inherited : FdTable α) :
    Except Nat (FdTable (Description α) × FdTable (Description α)) := do
  let (r, w, t) ← beforeFork calls (inherited.map .inherited)
  let child ← childBranch calls r w t
  .ok (child, parentBranch w t)

end Program

/-- The child reads the input file and writes to the pipe, and no other
descriptor of the child and none of the parent keeps the write end open. -/
structure Launched
    {α : Type u}
    (child parent : FdTable (Description α)) :
    Prop where
  stdin : child.entry stdinFileno = some .inputFile
  stdout : child.entry stdoutFileno = some .writeEnd
  only_stdout :
    ∀ fd, child.entry fd = some .readEnd ∨ child.entry fd = some .writeEnd →
      fd = stdoutFileno
  parent_closed : ∀ fd, parent.entry fd ≠ some .writeEnd

section Inversion

variable {α β γ : Type u} {calls : Calls}

theorem checked_eq_ok
    {succeeds : Bool}
    {result : Option β}
    {b : β}
    (h : checked succeeds result = .ok b) :
    result = some b := by
  cases succeeds with
  | false =>
      cases h
  | true =>
      cases result with
      | none =>
          cases h
      | some b' =>
          cases h
          rfl

/-- What the calls before `fork` have done when none of them has failed. -/
theorem beforeFork_eq_ok
    {t t' : FdTable (Description α)}
    {r w : Nat}
    (h : beforeFork calls t = .ok (r, w, t')) :
    ∃ inFd, ∃ opened : FdTable (Description α),
      t.entry inFd = none ∧ (∀ fd, fd < inFd → t.entry fd ≠ none) ∧
      opened.entry =
        Function.update (Function.update t.entry stdinFileno (some .inputFile))
          inFd none ∧
      opened.entry r = none ∧ opened.entry w = none ∧ r < w ∧
      (∀ fd, fd < r → opened.entry fd ≠ none) ∧
      t'.entry =
        Function.update (Function.update opened.entry r (some .readEnd))
          w (some .writeEnd) := by
  obtain ⟨⟨inFd, t₁⟩, hopen, h⟩ := except_bind_eq_ok_iff.mp h
  obtain ⟨t₂, hdup, h⟩ := except_bind_eq_ok_iff.mp h
  obtain ⟨⟨r', w', t₃⟩, hpipe, h⟩ := except_bind_eq_ok_iff.mp h
  split_ifs at h
  cases h
  obtain ⟨hfree, hlow, halloc⟩ := FdTable.alloc_eq_some (checked_eq_ok hopen)
  have hdup' := FdTable.dup2_eq_some (checked_eq_ok hdup)
  obtain ⟨hr, hw, hlt, hrlow, hpiped⟩ := FdTable.pipe_eq_some (checked_eq_ok hpipe)
  refine ⟨inFd, t₂.close inFd, hfree, hlow, ?_, hr, hw, hlt, hrlow, hpiped⟩
  rw [FdTable.close_entry, hdup', halloc, Function.update_self]
  funext fd
  by_cases hfd : fd = inFd
  · simp [hfd]
  · by_cases hstdin : fd = stdinFileno
    · subst hstdin
      simp [hfd]
    · simp [hfd, hstdin]

/-- What the calls of the child have done when none of them has failed. -/
theorem childBranch_eq_ok
    {t child : FdTable (Description α)}
    {r w : Nat}
    (h : childBranch calls r w t = .ok child) :
    child.entry =
      Function.update
        (Function.update (Function.update t.entry r none) stdoutFileno
          (Function.update t.entry r none w)) w none := by
  obtain ⟨t₁, hdup, h⟩ := except_bind_eq_ok_iff.mp h
  cases h
  have hdup' := FdTable.dup2_eq_some (checked_eq_ok hdup)
  rw [FdTable.close_entry, hdup', FdTable.close_entry]

end Inversion

section Launch

variable {α : Type u} {calls : Calls} {inherited : FdTable α}
variable {child parent : FdTable (Description α)}

theorem inherited_entry_ne
    (inherited : FdTable α)
    (fd : Nat) :
    (inherited.map Description.inherited).entry fd ≠ some .readEnd ∧
    (inherited.map Description.inherited).entry fd ≠ some .writeEnd := by
  simp only [FdTable.map]
  cases inherited.entry fd <;> simp

/-- Before the call of `pipe` no descriptor refers to one of its ends. -/
theorem opened_entry_ne
    {opened : FdTable (Description α)}
    {inFd : Nat}
    (hopened : opened.entry =
      Function.update
        (Function.update (inherited.map Description.inherited).entry stdinFileno
          (some .inputFile))
        inFd none)
    (fd : Nat) :
    opened.entry fd ≠ some .readEnd ∧ opened.entry fd ≠ some .writeEnd := by
  rw [hopened]
  by_cases hin : fd = inFd
  · simp [hin]
  · rw [Function.update_of_ne hin]
    by_cases hstdin : fd = stdinFileno
    · simp [hstdin]
    · rw [Function.update_of_ne hstdin]
      exact inherited_entry_ne inherited fd

/-- The parent closes the only number under which it has the write end. -/
theorem parent_closes_writeEnd
    (h : main calls inherited = .ok (child, parent)) :
    ∀ fd, parent.entry fd ≠ some .writeEnd := by
  obtain ⟨⟨r, w, t⟩, hbefore, h⟩ := except_bind_eq_ok_iff.mp h
  obtain ⟨child', hchild, h⟩ := except_bind_eq_ok_iff.mp h
  cases h
  obtain ⟨inFd, opened, -, -, hopened, -, -, -, -, hpiped⟩ :=
    beforeFork_eq_ok hbefore
  intro fd
  rw [parentBranch, FdTable.close_entry, hpiped]
  by_cases hw : fd = w
  · simp [hw]
  · by_cases hr : fd = r
    · subst hr
      simp [hw]
    · rw [Function.update_of_ne hw, Function.update_of_ne hw,
        Function.update_of_ne hr]
      exact (opened_entry_ne hopened fd).2

/-- Without a descriptor `0` the child executes the command without one. -/
theorem child_without_stdin
    (hfree : inherited.entry stdinFileno = none)
    (h : main calls inherited = .ok (child, parent)) :
    child.entry stdinFileno = none := by
  obtain ⟨⟨r, w, t⟩, hbefore, h⟩ := except_bind_eq_ok_iff.mp h
  obtain ⟨child', hchild, h⟩ := except_bind_eq_ok_iff.mp h
  cases h
  obtain ⟨inFd, opened, hin, hinlow, hopened, hr, hw, hlt, hrlow, hpiped⟩ :=
    beforeFork_eq_ok hbefore
  have hzero : (inherited.map Description.inherited).entry stdinFileno = none := by
    simp [FdTable.map, hfree]
  have hinFd : inFd = stdinFileno := by
    rcases Nat.eq_zero_or_pos inFd with heq | hpos
    · exact heq
    · exact absurd hzero (hinlow stdinFileno hpos)
  have hclosed : opened.entry stdinFileno = none := by
    rw [hopened, hinFd, Function.update_self]
  have hreadEnd : r = stdinFileno := by
    rcases Nat.eq_zero_or_pos r with heq | hpos
    · exact heq
    · exact absurd hclosed (hrlow stdinFileno hpos)
  rw [childBranch_eq_ok hchild]
  have hstdout : stdinFileno ≠ stdoutFileno := by
    decide
  have hwne : stdinFileno ≠ w := by
    omega
  rw [Function.update_of_ne hwne, Function.update_of_ne hstdout, ← hreadEnd,
    Function.update_self]

/-- With a descriptor `0` everything is where it belongs. -/
theorem launched_of_stdin
    (hused : inherited.entry stdinFileno ≠ none)
    (h : main calls inherited = .ok (child, parent)) :
    Launched child parent := by
  have hparent := parent_closes_writeEnd h
  obtain ⟨⟨r, w, t⟩, hbefore, h⟩ := except_bind_eq_ok_iff.mp h
  obtain ⟨child', hchild, h⟩ := except_bind_eq_ok_iff.mp h
  cases h
  obtain ⟨inFd, opened, hin, -, hopened, hr, hw, hlt, -, hpiped⟩ :=
    beforeFork_eq_ok hbefore
  have hentry := childBranch_eq_ok hchild
  have hinFd : stdinFileno ≠ inFd := by
    rintro rfl
    simp [FdTable.map, hused] at hin
  have hstdin : opened.entry stdinFileno = some .inputFile := by
    rw [hopened, Function.update_of_ne hinFd, Function.update_self]
  have hrne : stdinFileno ≠ r := by
    rintro rfl
    simp [hr] at hstdin
  have hwne : stdinFileno ≠ w := by
    rintro rfl
    simp [hw] at hstdin
  have hwout : stdoutFileno ≠ w := by
    simp only [stdinFileno, stdoutFileno] at *
    omega
  have hzero : stdinFileno ≠ stdoutFileno := by
    decide
  have hwr : w ≠ r := by
    omega
  refine
    { stdin := ?_
      stdout := ?_
      only_stdout := fun fd hfd => ?_
      parent_closed := hparent }
  · rw [hentry, Function.update_of_ne hwne, Function.update_of_ne hzero,
      Function.update_of_ne hrne, hpiped, Function.update_of_ne hwne,
      Function.update_of_ne hrne]
    exact hstdin
  · rw [hentry, Function.update_of_ne hwout, Function.update_self,
      Function.update_of_ne hwr, hpiped, Function.update_self]
  · by_contra hne
    rw [hentry] at hfd
    by_cases hfw : fd = w
    · simp [hfw] at hfd
    · rw [Function.update_of_ne hfw, Function.update_of_ne hne] at hfd
      by_cases hfr : fd = r
      · simp [hfr] at hfd
      · rw [Function.update_of_ne hfr, hpiped, Function.update_of_ne hfw,
          Function.update_of_ne hfr] at hfd
        have hopened_ne := opened_entry_ne hopened fd
        rcases hfd with hread | hwrite
        · exact hopened_ne.1 hread
        · exact hopened_ne.2 hwrite

/-- When no call fails, the two processes have the descriptors they should have
exactly for the inherited tables in which descriptor `0` is in use. -/
theorem launched_iff_stdin_open
    (calls : Calls)
    (inherited : FdTable α)
    (child parent : FdTable (Description α))
    (h : main calls inherited = .ok (child, parent)) :
    Launched child parent ↔ inherited.entry stdinFileno ≠ none := by
  constructor
  · intro hlaunched hfree
    have hnone := child_without_stdin hfree h
    rw [hlaunched.stdin] at hnone
    cases hnone
  · intro hused
    exact launched_of_stdin hused h

end Launch

section Tables

/-- All calls succeed. -/
def noFailure : Calls where
  openInput := true
  dup2Input := true
  pipe := true
  fork := true
  dup2Output := true

/-- A table of eight numbers in which those of a list are in use. -/
def tableOf
    (used : List Nat)
    (h : ∀ fd, fd ∈ used → fd < 8) :
    FdTable Unit where
  limit := 8
  entry fd := if fd ∈ used then some () else none
  bounded fd hfd := if_neg (fun hused => absurd (h fd hused) (by omega))

/-- The three standard descriptors. -/
def standardTable : FdTable Unit :=
  tableOf [0, 1, 2] (by decide)

/-- The standard input was closed before the program was started. -/
def withoutStdin : FdTable Unit :=
  tableOf [1, 2] (by decide)

theorem launched_standardTable :
    ∃ child parent,
      main noFailure standardTable = .ok (child, parent) ∧
      Launched child parent := by
  obtain ⟨⟨child, parent⟩, hmain⟩ :
      ∃ p, main noFailure standardTable = .ok p := ⟨_, rfl⟩
  have hiff := launched_iff_stdin_open noFailure standardTable child parent hmain
  exact ⟨child, parent, hmain, hiff.mpr (by decide)⟩

/-- With descriptor `0` closed the command is executed without a standard input. -/
theorem not_launched_withoutStdin :
    ∃ child parent,
      main noFailure withoutStdin = .ok (child, parent) ∧
      child.entry stdinFileno = none ∧
      ¬ Launched child parent := by
  obtain ⟨⟨child, parent⟩, hmain⟩ :
      ∃ p, main noFailure withoutStdin = .ok p := ⟨_, rfl⟩
  have hnone := child_without_stdin (by decide) hmain
  refine ⟨child, parent, hmain, hnone, fun hlaunched => ?_⟩
  rw [hlaunched.stdin] at hnone
  cases hnone

end Tables

end PipeLaunch
end DupPipe
end OsSeminars
