import OsSeminars.Foundation.CString
import OsSeminars.Foundation.Stdio

/-!
# `dup2-stdout.c`: a file as the standard output

The program opens a file, lets descriptor `1` refer to it as well, prints a line and
closes the descriptor that `open` has returned. The stream leads to a file then, so the
line is passed on by `exit` only, behind the `close`. When descriptor `1` was not in use
and `0` was, `open` has returned `1` itself: `dup2` has nothing to do, the `close` takes
the standard output away, and the line is lost.

When a call fails, `perror` writes a text to the standard error, which is a parameter.
-/

namespace OsSeminars
namespace DupPipe
namespace Dup2Stdout

open Foundation
open Stdio (stdinFileno stdoutFileno perror Complained inTerminal)
open CString (literal)
open FileContents (overlay)
open OpenFiles (attempt attempt_eq_some)

universe u

structure Calls where
  openFile : Bool
  dup2 : Bool

variable {ι : Type u} [DecidableEq ι]

/-- `"hello world\n"` -/
def hello : List UInt8 :=
  literal "hello world" ++ [10]

/-- `main`: its status, and the files behind it; `message` is what `perror` writes. -/
def main
    (calls : Calls)
    (terminal : ι → Bool)
    (message : List UInt8)
    (file : ι)
    (s : OpenFiles ι) :
    Nat × OpenFiles ι :=
  match attempt calls.openFile (s.openFile file) with
  | none => (1, (Stdio.fresh (perror message s)).exit)
  | some (fd, s) =>
      match attempt calls.dup2 (s.dup2 fd stdoutFileno) with
      | none => (1, (Stdio.fresh (perror message s)).exit)
      | some (_, s) =>
          let p := (Stdio.fresh s).printf terminal hello
          (0, Stdio.exit { p with files := p.files.close fd })

/-- When the program returns `0`, the line is at the beginning of the file, unless
descriptor `0` was in use and `1` was not: then it is lost. Otherwise the program returns
`1`, and nothing has been written but the message. -/
theorem line_in_file
    (calls : Calls)
    (terminal : ι → Bool)
    (message : List UInt8)
    (file : ι)
    (s : OpenFiles ι)
    (hfile : terminal file = false) :
    let t := (main calls terminal message file s).2
    ((main calls terminal message file s).1 = 0 →
      t.contents =
        if s.table.entry stdinFileno ≠ none ∧ s.table.entry stdoutFileno = none then
          s.contents
        else Function.update s.contents file (overlay hello (s.contents file))) ∧
    ((main calls terminal message file s).1 ≠ 0 →
      (main calls terminal message file s).1 = 1 ∧ Complained message s s.contents t) := by
  cases hopen : attempt calls.openFile (s.openFile file) with
  | none =>
      simp only [main, hopen, Stdio.exit_fresh]
      exact ⟨nofun, fun _ => ⟨trivial, s, rfl, fun _ => rfl, rfl⟩⟩
  | some opened =>
      obtain ⟨fd, s₁⟩ := opened
      obtain ⟨-, -, hentry, hdescriptions, hcontents⟩ :=
        OpenFiles.openFile_eq_some (attempt_eq_some hopen)
      cases hdup2 : attempt calls.dup2 (s₁.dup2 fd stdoutFileno) with
      | none =>
          simp only [main, hopen, hdup2, Stdio.exit_fresh]
          refine ⟨nofun, fun _ => ⟨trivial, s₁, hcontents, fun herr => ?_, rfl⟩⟩
          exact (OpenFiles.openFile_description (attempt_eq_some hopen) herr).2
      | some duplicated =>
          obtain ⟨newfd, s₂⟩ := duplicated
          obtain ⟨-, hentry', hdescriptions', hcontents'⟩ :=
            OpenFiles.dup2_eq_some (attempt_eq_some hdup2)
          have hat : s₂.At s.descriptions.length file 0 :=
            OpenFiles.at_zero (by
              rw [hdescriptions', hdescriptions, List.getElem?_concat_length])
          have hstdout : s₂.table.entry stdoutFileno = some s.descriptions.length := by
            rw [hentry', Function.update_self, hentry, Function.update_self]
          have hfull : (Stdio.fresh s₂).stdout.mode
              (Stdio.isatty terminal (Stdio.fresh s₂).files) = .full := by
            simp [Stdio.fresh, OutStream.fresh, OutStream.mode, Stdio.isatty,
              OpenFiles.description, hstdout, hat.description, hfile]
          simp only [main, hopen, hdup2, Stdio.printf_of_full hfull]
          refine ⟨fun _ => ?_, fun h => absurd rfl h⟩
          have hiff := Stdio.opened_as_stdout_iff (attempt_eq_some hopen)
          by_cases hfd : fd = stdoutFileno
          · rw [if_pos (hiff.mp hfd), Stdio.exit, OpenFiles.write_of_closed,
              OpenFiles.close_contents]
            · exact hcontents'.trans hcontents
            · rw [hfd, OpenFiles.close_entry, Function.update_self]
          · have hclosed : ((s₂.close fd).table.entry stdoutFileno) =
                some s.descriptions.length := by
              rw [OpenFiles.close_entry, Function.update_of_ne (Ne.symm hfd), hstdout]
            have hat' : (s₂.close fd).At s.descriptions.length file 0 :=
              OpenFiles.at_zero hat.description
            rw [if_neg (mt hiff.mpr hfd), Stdio.exit]
            refine (hat'.write hclosed _).2.1.trans ?_
            rw [OpenFiles.close_contents, hcontents', hcontents, FileContents.writeAt_zero]
            rfl

theorem line_in_file_inTerminal :
    (main ⟨true, true⟩ id [] false inTerminal).2.contents =
      Function.update (fun _ => []) false hello := by
  have hstatus : (main ⟨true, true⟩ id [] false inTerminal).1 = 0 := by
    decide
  exact (line_in_file ⟨true, true⟩ id [] false inTerminal rfl).1 hstatus

end Dup2Stdout
end DupPipe
end OsSeminars
