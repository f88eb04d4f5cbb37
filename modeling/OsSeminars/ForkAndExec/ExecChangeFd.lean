import OsSeminars.Foundation.CString
import OsSeminars.Foundation.Stdio

/-!
# `exec-change-fd.c`: another standard output across `exec`

The program prints a line, closes the standard output, opens a file, prints the number
that `open` has returned and executes Python, which inherits the descriptors. The number
should be the one just closed, and it is as long as descriptor `0` is in use.

What the stream still holds at `exec` is gone with the memory of the program. So on a
terminal, where the stream is buffered by lines, the first line is seen there and the
second is in the file; anywhere else both are lost, or, when `exec` fails, both are in
the file.
-/

namespace OsSeminars
namespace ForkAndExec
namespace ExecChangeFd

open Foundation
open Stdio (stdinFileno stdoutFileno stderrFileno isatty inTerminal)
open CString (literal)
open FileContents (overlay)
open OpenFiles (attempt attempt_eq_some)

universe u

structure Calls where
  openFile : Bool
  execlp : Bool

/-- The process runs the new program, or it has returned. -/
inductive Outcome (ι : Type u)
  | replaced (files : OpenFiles ι)
  | returned (status : Nat) (files : OpenFiles ι)

def beforeExec
    (pid : Nat) :
    List UInt8 :=
  literal ("before exec, pid=" ++ toString pid) ++ [10]

def newStdout
    (fdOut : Int) :
    List UInt8 :=
  literal ("new stdout=" ++ toString fdOut) ++ [10]

variable {ι : Type u} [DecidableEq ι]

/-- Up to `close(STDOUT_FILENO)`. -/
def closed
    (terminal : ι → Bool)
    (pid : Nat)
    (s : OpenFiles ι) :
    Stdio ι :=
  let p := (Stdio.fresh s).printf terminal (beforeExec pid)
  { p with files := p.files.close stdoutFileno }

/-- `main`; `message` is what `perror` writes to the standard error. -/
def main
    (calls : Calls)
    (terminal : ι → Bool)
    (pid : Nat)
    (message : List UInt8)
    (file : ι)
    (s : OpenFiles ι) :
    Outcome ι :=
  let p := closed terminal pid s
  let opened : Int × Stdio ι :=
    match attempt calls.openFile (p.files.openFile file) with
    | none => (-1, p)
    | some (fd, files) => (fd, { p with files := files })
  let p := opened.2.printf terminal (newStdout opened.1)
  if calls.execlp then .replaced p.files
  else .returned 1 (Stdio.exit { p with files := Stdio.perror message p.files })

/-- What the file holds of the two lines. -/
def linesInFile
    (tty replaced : Bool)
    (pid : Nat) :
    List UInt8 :=
  if tty then newStdout 1
  else if replaced then []
  else beforeExec pid ++ newStdout 1

/-- The files when the first line has been printed. -/
def told
    (terminal : ι → Bool)
    (pid : Nat)
    (s : OpenFiles ι) :
    OpenFiles ι :=
  if isatty terminal s then s.write stdoutFileno (beforeExec pid) else s

section Lines

variable {terminal : ι → Bool} {pid : Nat} {file : ι} {s opened : OpenFiles ι} {fd n : Nat}

/-- The files and the stream when the standard output has been closed. -/
theorem closed_eq
    (terminal : ι → Bool)
    (pid : Nat)
    (s : OpenFiles ι) :
    closed terminal pid s =
      ⟨(told terminal pid s).close stdoutFileno,
        if isatty terminal s then ⟨some .line, []⟩ else ⟨some .full, beforeExec pid⟩⟩ := by
  have hmode : (Stdio.fresh s).stdout.mode (isatty terminal (Stdio.fresh s).files) =
      if isatty terminal s then .line else .full :=
    rfl
  rw [closed, told]
  by_cases htty : isatty terminal s = true
  · rw [if_pos htty] at hmode
    rw [beforeExec, Stdio.printf_of_line hmode, if_pos htty, if_pos htty]
    rfl
  · rw [if_neg htty] at hmode
    rw [Stdio.printf_of_full hmode, if_neg htty, if_neg htty]
    rfl

theorem told_table
    (terminal : ι → Bool)
    (pid : Nat)
    (s : OpenFiles ι) :
    (told terminal pid s).table = s.table := by
  rw [told]
  split_ifs
  · exact OpenFiles.write_table ..
  · rfl

/-- `open` returns the number just closed exactly when descriptor `0` is in use. -/
theorem fdOut_eq_stdout_iff
    (hopen : ((told terminal pid s).close stdoutFileno).openFile file = some (fd, opened)) :
    fd = stdoutFileno ↔ s.table.entry stdinFileno ≠ none := by
  rw [Stdio.opened_as_stdout_iff hopen, OpenFiles.close_entry, told_table, Function.update_self,
    Function.update_of_ne (by decide)]
  exact and_iff_left rfl

/-- What `open` has done, when it succeeds. -/
theorem opened_facts
    (hopen : ((told terminal pid s).close stdoutFileno).openFile file = some (fd, opened)) :
    opened.At (told terminal pid s).descriptions.length file 0 ∧
    opened.contents = (told terminal pid s).contents ∧
    opened.table.entry =
      Function.update (Function.update s.table.entry stdoutFileno none) fd
        (some (told terminal pid s).descriptions.length) := by
  obtain ⟨-, -, hentry, hdescriptions, hcontents⟩ := OpenFiles.openFile_eq_some hopen
  refine ⟨OpenFiles.at_zero ?_, hcontents, ?_⟩
  · rw [hdescriptions, OpenFiles.close_descriptions, List.getElem?_concat_length]
  · rw [hentry, OpenFiles.close_entry, told_table, OpenFiles.close_descriptions]

/-- The second line is passed on at once on a terminal, and stays in the stream behind the
first one otherwise. -/
theorem printf_newStdout
    (terminal : ι → Bool)
    (pid : Nat)
    (s opened : OpenFiles ι)
    (fdOut : Int) :
    ({ closed terminal pid s with files := opened } : Stdio ι).printf terminal
        (newStdout fdOut) =
      if isatty terminal s then
        ⟨opened.write stdoutFileno (newStdout fdOut), ⟨some .line, []⟩⟩
      else ⟨opened, ⟨some .full, beforeExec pid ++ newStdout fdOut⟩⟩ := by
  rw [closed_eq]
  split_ifs with htty
  · rw [newStdout, Stdio.printf_of_line (OutStream.mode_of_some rfl _)]
    rfl
  · rw [Stdio.printf_of_full (OutStream.mode_of_some rfl _)]

/-- What `exec` leaves of the second call of `printf` are bytes written to the standard
output, at most. -/
theorem replaced_files
    (terminal : ι → Bool)
    (pid : Nat)
    (s opened : OpenFiles ι) :
    (({ closed terminal pid s with files := opened } : Stdio ι).printf terminal
        (newStdout 1)).files =
      opened.write stdoutFileno (linesInFile (isatty terminal s) true pid) := by
  rw [printf_newStdout, linesInFile, if_pos rfl]
  split_ifs
  · rfl
  · exact (OpenFiles.write_nil ..).symm

/-- When `exec` fails, the rest of both lines is written behind the message. -/
theorem returned_files
    (hat : opened.At n file 0)
    (hstdout : opened.table.entry stdoutFileno = some n)
    (hother : ∀ d, opened.description stderrFileno = some d → d.file ≠ file)
    (message : List UInt8) :
    let p := ({ closed terminal pid s with files := opened } : Stdio ι).printf terminal
      (newStdout 1)
    (Stdio.exit { p with files := Stdio.perror message p.files }).contents file =
      overlay (linesInFile (isatty terminal s) false pid) (opened.contents file) := by
  rw [printf_newStdout, linesInFile, if_neg Bool.false_ne_true]
  dsimp only [Stdio.exit, Stdio.perror, OutStream.flush]
  split_ifs with htty
  · obtain ⟨hat', hcontents, -⟩ := hat.write hstdout (newStdout 1)
    have hother' : ∀ d, (opened.write stdoutFileno (newStdout 1)).description stderrFileno =
        some d → d.file ≠ file := by
      have hne : opened.table.entry stderrFileno ≠ opened.table.entry stdoutFileno := by
        rw [hstdout]
        exact hat.entry_ne hother
      rw [OpenFiles.write_description hne]
      exact hother
    have hkept := (hat'.write_other hother' message).2
    dsimp only
    rw [OpenFiles.write_nil, hkept, hcontents, Function.update_self, FileContents.writeAt_zero]
  · obtain ⟨hat', hkept⟩ := hat.write_other hother message
    have hwrite := (hat'.write (by rwa [OpenFiles.write_table])
      (beforeExec pid ++ newStdout 1)).2.1
    dsimp only
    rw [hwrite, Function.update_self, FileContents.writeAt_zero, hkept]

/-- Without a standard output nothing of the second line is written. -/
theorem printf_files_of_closed
    (hstdout : opened.table.entry stdoutFileno = none)
    (text : List UInt8)
    (stdout : OutStream) :
    ((⟨opened, stdout⟩ : Stdio ι).printf terminal text).files = opened :=
  OpenFiles.write_of_closed hstdout _

end Lines

/-- With descriptor `0` in use, the new program inherits the file as its standard output,
behind the part of the two lines that is in it. Without, it has no standard output. What
is in the file: on a terminal the second line, elsewhere nothing or, when `exec` fails,
both lines. -/
theorem new_standard_output
    (calls : Calls)
    (terminal : ι → Bool)
    (pid : Nat)
    (message : List UInt8)
    (file : ι)
    (s opened : OpenFiles ι)
    (fd : Nat)
    (hopen :
      attempt calls.openFile
        (((told terminal pid s).close stdoutFileno).openFile file) = some (fd, opened)) :
    (fd = stdoutFileno ↔ s.table.entry stdinFileno ≠ none) ∧
    match main calls terminal pid message file s with
    | .replaced t =>
        if s.table.entry stdinFileno = none then
          t.contents = (told terminal pid s).contents ∧ t.description stdoutFileno = none
        else
          t.contents =
            Function.update (told terminal pid s).contents file
              (overlay (linesInFile (isatty terminal s) true pid)
                ((told terminal pid s).contents file)) ∧
          t.description stdoutFileno =
            some ⟨file, (linesInFile (isatty terminal s) true pid).length, false⟩
    | .returned status t =>
        status = 1 ∧
        ((∀ d, opened.description stderrFileno = some d → d.file ≠ file) →
          t.contents file =
            if s.table.entry stdinFileno = none then (told terminal pid s).contents file
            else
              overlay (linesInFile (isatty terminal s) false pid)
                ((told terminal pid s).contents file)) := by
  have hopen' := attempt_eq_some hopen
  have hiff := fdOut_eq_stdout_iff hopen'
  obtain ⟨hat, hcontents, hentry⟩ := opened_facts hopen'
  have hopen'' :
      attempt calls.openFile ((closed terminal pid s).files.openFile file) =
        some (fd, opened) := by
    rw [closed_eq]
    exact hopen
  refine ⟨hiff, ?_⟩
  simp only [main, hopen'']
  by_cases hstdin : s.table.entry stdinFileno = none
  · have hfd : stdoutFileno ≠ fd := fun h => hiff.mp h.symm hstdin
    have hstdout : opened.table.entry stdoutFileno = none := by
      rw [hentry, Function.update_of_ne hfd, Function.update_self]
    simp only [if_pos hstdin, printf_files_of_closed hstdout]
    cases calls.execlp with
    | true =>
        simp only [if_true]
        exact ⟨hcontents, by rw [OpenFiles.description, hstdout]; rfl⟩
    | false =>
        simp only [Bool.false_eq_true, if_false]
        refine ⟨trivial, fun hother => ?_⟩
        rw [Stdio.exit, Stdio.perror,
          OpenFiles.write_of_closed (by rw [OpenFiles.write_table, hstdout])]
        exact (hat.write_other hother message).2.trans (congrFun hcontents file)
  · have hfd : fd = stdoutFileno := hiff.mpr hstdin
    subst hfd
    have hstdout :
        opened.table.entry stdoutFileno =
          some (told terminal pid s).descriptions.length := by
      rw [hentry, Function.update_self]
    simp only [if_neg hstdin]
    cases calls.execlp with
    | true =>
        obtain ⟨hat', hwritten, -⟩ :=
          hat.write hstdout (linesInFile (isatty terminal s) true pid)
        have hfiles := replaced_files terminal pid s opened
        simp only [if_true]
        refine ⟨?_, ?_⟩
        · refine (congrArg OpenFiles.contents hfiles).trans ?_
          rw [hwritten, hcontents, FileContents.writeAt_zero]
        · refine (congrArg (OpenFiles.description · stdoutFileno) hfiles).trans ?_
          rw [OpenFiles.description, OpenFiles.write_table, hstdout]
          exact hat'.description.trans (by rw [Nat.zero_add])
    | false =>
        simp only [Bool.false_eq_true, if_false]
        refine ⟨trivial, fun hother => ?_⟩
        rw [← hcontents]
        exact returned_files hat hstdout hother message

theorem new_standard_output_inTerminal :
    ∃ t, main ⟨true, true⟩ id 7 [] false inTerminal = .replaced t ∧
      t.contents false = newStdout 1 ∧ t.contents true = beforeExec 7 := by
  have hsome :
      (attempt true
        (((told id 7 inTerminal).close stdoutFileno).openFile false)).isSome = true := by
    decide +kernel
  obtain ⟨⟨fd, opened⟩, hopen⟩ := Option.isSome_iff_exists.mp hsome
  have hmain := (new_standard_output ⟨true, true⟩ id 7 [] false inTerminal opened fd hopen).2
  have hreplaced : ∃ t, main ⟨true, true⟩ id 7 [] false inTerminal = .replaced t :=
    ⟨_, rfl⟩
  obtain ⟨t, ht⟩ := hreplaced
  rw [ht] at hmain
  dsimp only at hmain
  rw [if_neg (by decide)] at hmain
  obtain ⟨hcontents, -⟩ := hmain
  refine ⟨t, ht, ?_, ?_⟩
  · rw [hcontents]
    decide +kernel
  · rw [hcontents]
    decide +kernel

end ExecChangeFd
end ForkAndExec
end OsSeminars
