import OsSeminars.Foundation.OpenFiles
import OsSeminars.Foundation.OutStream

/-!
# Foundation: the standard output

The stream of the C library for the standard output belongs to descriptor `1`, whatever
this refers to when the stream is passed on. Nothing happens then when the number is not
in use, and what was printed is lost. The standard error is not buffered: a message for
it is written at once, to whatever descriptor `2` refers to.
-/

namespace OsSeminars
namespace Foundation

universe u

/-- The files of a process, and its stream for the standard output. -/
structure Stdio (ι : Type u) where
  files : OpenFiles ι
  stdout : OutStream

namespace Stdio

def stdinFileno : Nat := 0

def stdoutFileno : Nat := 1

def stderrFileno : Nat := 2

variable {ι : Type u}

/-- A program starts with nothing printed. -/
def fresh
    (files : OpenFiles ι) :
    Stdio ι where
  files := files
  stdout := .fresh

/-- `isatty(STDOUT_FILENO)`, given which files are terminals. -/
def isatty
    (terminal : ι → Bool)
    (files : OpenFiles ι) :
    Bool :=
  match files.description stdoutFileno with
  | none => false
  | some d => terminal d.file

/-- `open` returns `1` exactly when `0` is in use and `1` is not. -/
theorem opened_as_stdout_iff
    {file : ι}
    {s t : OpenFiles ι}
    {fd : Nat}
    (h : s.openFile file = some (fd, t)) :
    fd = stdoutFileno ↔
      s.table.entry stdinFileno ≠ none ∧ s.table.entry stdoutFileno = none := by
  obtain ⟨hfree, hlow, -⟩ := OpenFiles.openFile_eq_some h
  constructor
  · rintro rfl
    exact ⟨hlow stdinFileno (by decide), hfree⟩
  · rintro ⟨hstdin, hstdout⟩
    rcases Nat.lt_trichotomy fd stdoutFileno with hlt | heq | hgt
    · have hzero : fd = stdinFileno := by
        simp only [stdinFileno, stdoutFileno] at hlt ⊢
        omega
      rw [hzero] at hfree
      exact absurd hfree hstdin
    · exact heq
    · exact absurd hstdout (hlow stdoutFileno hgt)

/-- Descriptors `0` to `2` refer to a terminal, and there is one other file. -/
def inTerminal : OpenFiles Bool where
  contents _ := []
  descriptions := [⟨true, 0, true⟩]
  table :=
    { limit := 16
      entry := fun fd => if fd < 3 then some 0 else none
      bounded := by
        intro fd h
        exact if_neg (by omega) }
  valid := by
    intro fd n h
    dsimp only at h
    split_ifs at h
    cases h
    decide

variable [DecidableEq ι]

/-- `printf`. -/
def printf
    (terminal : ι → Bool)
    (p : Stdio ι)
    (text : List UInt8) :
    Stdio ι :=
  let r := p.stdout.put (isatty terminal p.files) text
  ⟨p.files.write stdoutFileno r.1, r.2⟩

/-- `exit`, which flushes the stream. -/
def exit
    (p : Stdio ι) :
    OpenFiles ι :=
  p.files.write stdoutFileno p.stdout.flush.1

/-- `perror`, given the text that it writes. -/
def perror
    (message : List UInt8)
    (files : OpenFiles ι) :
    OpenFiles ι :=
  files.write stderrFileno message

/-- Behind the contents given, a message has gone to the standard error and to nothing
else. If the standard error was open at the beginning, it still leads where it did. -/
def Complained
    (message : List UInt8)
    (before : OpenFiles ι)
    (contents : ι → List UInt8)
    (after : OpenFiles ι) :
    Prop :=
  ∃ files : OpenFiles ι, files.contents = contents ∧
    (before.table.entry stderrFileno ≠ none →
      files.description stderrFileno = before.description stderrFileno) ∧
    after = perror message files

/-- A program that has printed nothing has nothing to pass on. -/
@[simp] theorem exit_fresh
    (files : OpenFiles ι) :
    (fresh files).exit = files :=
  OpenFiles.write_nil files stdoutFileno

variable {terminal : ι → Bool} {p : Stdio ι}

theorem printf_of_full
    (h : p.stdout.mode (isatty terminal p.files) = .full)
    (text : List UInt8) :
    p.printf terminal text = ⟨p.files, ⟨some .full, p.stdout.pending ++ text⟩⟩ := by
  rw [printf, OutStream.put_of_full h, OpenFiles.write_nil]

theorem printf_of_line
    (h : p.stdout.mode (isatty terminal p.files) = .line)
    (front : List UInt8) :
    p.printf terminal (front ++ [10]) =
      ⟨p.files.write stdoutFileno (p.stdout.pending ++ front ++ [10]),
        ⟨some .line, []⟩⟩ := by
  rw [printf, OutStream.put_of_line h]

end Stdio

end Foundation
end OsSeminars
