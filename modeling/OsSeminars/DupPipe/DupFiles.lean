import OsSeminars.Foundation.CString
import OsSeminars.Foundation.Stdio

/-!
# `dup.c` and `dup2-file.c`: two numbers of one description

Both programs let two descriptors refer to one open file description and write through
each. The two writes share an offset, so the second comes behind the first. In
`dup2-file.c` the second number has referred to a description of its own before, through
which a text was written; `dup2` closes it.

The names of the source lead to files that may be the same, and the files may have had
contents. What the results of `open`, `dup` and `dup2` do not owe to the descriptors is a
parameter, and so is how many bytes a write transfers, as the programs do not look at it.
The text that `perror` writes is a parameter as well. It goes to descriptor `2`, and when
the program was started without one, `open` may have returned this number.
-/

namespace OsSeminars
namespace DupPipe

open Foundation
open CString (literal)
open FileContents (overlay)
open OpenFiles (attempt attempt_eq_some)
open Stdio (perror stderrFileno Complained)

universe u v

namespace Dup

structure Calls where
  openFile : Bool
  dup : Bool
  first : Nat
  second : Nat

variable {ι : Type u} [DecidableEq ι]

/-- `main`: its status, and the files behind it; `message` is what `perror` writes. -/
def main
    (calls : Calls)
    (message : List UInt8)
    (file : ι)
    (s : OpenFiles ι) :
    Nat × OpenFiles ι :=
  match attempt calls.openFile (s.openFile file) with
  | none => (1, perror message s)
  | some (fd, s) =>
      match attempt calls.dup (s.dup fd) with
      | none => (1, perror message s)
      | some (newfd, s) =>
          let s := s.write fd ((literal "123").take calls.first)
          let s := s.write newfd ((literal "345").take calls.second)
          (0, (s.close fd).close newfd)

/-- What the two writes transfer. -/
def written
    (calls : Calls) :
    List UInt8 :=
  (literal "123").take calls.first ++ (literal "345").take calls.second

/-- When the program returns `0`, the file begins with the bytes of both writes, one
behind the other, no other file and no open description has changed, and the descriptors
are as before. Otherwise it returns `1`, and nothing has been written but the message. -/
theorem writes_joined
    (calls : Calls)
    (message : List UInt8)
    (file : ι)
    (s : OpenFiles ι) :
    let t := (main calls message file s).2
    ((main calls message file s).1 = 0 →
      t.contents = Function.update s.contents file (overlay (written calls) (s.contents file)) ∧
      t.descriptions = s.descriptions ++ [⟨file, (written calls).length, false⟩] ∧
      t.table.entry = s.table.entry) ∧
    ((main calls message file s).1 ≠ 0 →
      (main calls message file s).1 = 1 ∧ Complained message s s.contents t) := by
  cases hopen : attempt calls.openFile (s.openFile file) with
  | none =>
      simp only [main, hopen]
      exact ⟨nofun, fun _ => ⟨trivial, s, rfl, fun _ => rfl, rfl⟩⟩
  | some opened =>
      obtain ⟨fd, s₁⟩ := opened
      obtain ⟨hfree, -, hentry, hdescriptions, hcontents⟩ :=
        OpenFiles.openFile_eq_some (attempt_eq_some hopen)
      cases hdup : attempt calls.dup (s₁.dup fd) with
      | none =>
          simp only [main, hopen, hdup]
          refine ⟨nofun, fun _ => ⟨trivial, s₁, hcontents, fun herr => ?_, rfl⟩⟩
          exact (OpenFiles.openFile_description (attempt_eq_some hopen) herr).2
      | some duplicated =>
          obtain ⟨newfd, s₂⟩ := duplicated
          obtain ⟨-, hfree', hentry', hdescriptions', hcontents'⟩ :=
            OpenFiles.dup_eq_some (attempt_eq_some hdup)
          have hfd : s₁.table.entry fd = some s.descriptions.length := by
            rw [hentry, Function.update_self]
          have hne : newfd ≠ fd := by
            rintro rfl
            rw [hfree'] at hfd
            cases hfd
          have hat : s₂.At s.descriptions.length file 0 :=
            OpenFiles.at_zero (by
              rw [hdescriptions', hdescriptions, List.getElem?_concat_length])
          have holdfd : s₂.table.entry fd = some s.descriptions.length := by
            rw [hentry', Function.update_of_ne hne.symm, hfd]
          have hnewfd : s₂.table.entry newfd = some s.descriptions.length := by
            rw [hentry', Function.update_self, hfd]
          obtain ⟨hc, hd, ht⟩ :=
            hat.write_write holdfd hnewfd
              ((literal "123").take calls.first) ((literal "345").take calls.second)
          simp only [main, hopen, hdup]
          refine ⟨fun _ => ⟨?_, ?_, ?_⟩, fun h => absurd rfl h⟩
          · rw [OpenFiles.close_contents, OpenFiles.close_contents, hc, hcontents', hcontents,
              FileContents.writeAt_zero, written]
          · rw [OpenFiles.close_descriptions, OpenFiles.close_descriptions, hd, hdescriptions',
              hdescriptions]
            simp [written]
          · rw [hentry, Function.update_of_ne hne] at hfree'
            rw [OpenFiles.close_entry, OpenFiles.close_entry, ht, hentry', hentry,
              OpenFiles.update_closed hfree hfree']

end Dup

namespace Dup2File

structure Calls where
  open1 : Bool
  open2 : Bool
  dup2 : Bool
  hello : Nat
  first : Nat
  second : Nat

/-- How `main` ends: it returns, or its `assert` fails. -/
inductive Outcome
  | returned (status : Nat)
  | aborted
  deriving DecidableEq

variable {ι : Type u} [DecidableEq ι]

/-- `main`; `message` is what `perror` writes. -/
def main
    (calls : Calls)
    (message : List UInt8)
    (file1 file2 : ι)
    (s : OpenFiles ι) :
    Outcome × OpenFiles ι :=
  match attempt calls.open1 (s.openFile file1) with
  | none => (.returned 1, perror message s)
  | some (fd1, s) =>
      match attempt calls.open2 (s.openFile file2) with
      | none => (.returned 1, perror message s)
      | some (fd2, s) =>
          let s := s.write fd2 ((literal "hello").take calls.hello)
          match attempt calls.dup2 (s.dup2 fd1 fd2) with
          | none => (.returned 1, perror message s)
          | some (newfd, s) =>
              if newfd = fd2 then
                let s := s.write fd1 ((literal "123").take calls.first)
                let s := s.write newfd ((literal "567").take calls.second)
                (.returned 0, (s.close fd1).close newfd)
              else (.aborted, s)

/-- What the two writes behind `dup2` transfer. -/
def written
    (calls : Calls) :
    List UInt8 :=
  (literal "123").take calls.first ++ (literal "567").take calls.second

/-- The files behind the first write. -/
def greeted
    (calls : Calls)
    (file2 : ι)
    (contents : ι → List UInt8) :
    ι → List UInt8 :=
  Function.update contents file2
    (overlay ((literal "hello").take calls.hello) (contents file2))

/-- What the calls in front of `dup2` have done. -/
theorem opened_greeted
    {s s₁ s₂ : OpenFiles ι}
    {file1 file2 : ι}
    {fd1 fd2 : Nat}
    (hopen1 : s.openFile file1 = some (fd1, s₁))
    (hopen2 : s₁.openFile file2 = some (fd2, s₂))
    (hello : List UInt8) :
    s.table.entry fd1 = none ∧
    s.table.entry fd2 = none ∧
    fd1 ≠ fd2 ∧
    (∃ n, (s₂.write fd2 hello).table.entry =
      Function.update (Function.update s.table.entry fd1 (some s.descriptions.length))
        fd2 n) ∧
    (s₂.write fd2 hello).descriptions[s.descriptions.length]? = some ⟨file1, 0, false⟩ ∧
    (s₂.write fd2 hello).contents =
      Function.update s.contents file2 (overlay hello (s.contents file2)) ∧
    (s.table.entry stderrFileno ≠ none →
      (s₂.write fd2 hello).description stderrFileno = s.description stderrFileno) := by
  obtain ⟨hfree1, -, hentry1, hdescriptions1, hcontents1⟩ :=
    OpenFiles.openFile_eq_some hopen1
  obtain ⟨hfree2, -, hentry2, hdescriptions2, hcontents2⟩ :=
    OpenFiles.openFile_eq_some hopen2
  have hne : fd1 ≠ fd2 := by
    rintro rfl
    rw [hentry1, Function.update_self] at hfree2
    cases hfree2
  have hat : s₂.At s₁.descriptions.length file2 0 :=
    OpenFiles.at_zero (by rw [hdescriptions2, List.getElem?_concat_length])
  obtain ⟨-, hcontents, hdescriptions⟩ :=
    hat.write (by rw [hentry2, Function.update_self]) hello
  rw [hentry1, Function.update_of_ne hne.symm] at hfree2
  refine ⟨hfree1, hfree2, hne, ⟨some s₁.descriptions.length, ?_⟩, ?_, ?_, fun herr => ?_⟩
  · rw [OpenFiles.write_table, hentry2, hentry1]
  · have hother : s₁.descriptions.length ≠ s.descriptions.length := by
      rw [hdescriptions1, List.length_append]
      exact Nat.succ_ne_self _
    rw [hdescriptions, List.getElem?_set_ne hother, hdescriptions2, hdescriptions1,
      List.append_assoc, List.getElem?_append_right (Nat.le_refl _), Nat.sub_self]
    rfl
  · rw [hcontents, hcontents2, hcontents1, FileContents.writeAt_zero]
  · obtain ⟨herr1, hsame1⟩ := OpenFiles.openFile_description hopen1 herr
    obtain ⟨herr2, hsame2⟩ := OpenFiles.openFile_description hopen2 (by rwa [herr1])
    have hother : s₂.table.entry stderrFileno ≠ s₂.table.entry fd2 := by
      rw [hentry2, Function.update_self]
      intro hsame
      rw [← hentry2, herr2] at hsame
      exact absurd (s₁.valid _ _ hsame) (Nat.lt_irrefl _)
    rw [OpenFiles.write_description hother, hsame2, hsame1]

/-- The first file gets the bytes of both writes behind `dup2`, one behind the other and
from its beginning on, even where it is the file that `hello` was written to. The
assertion never fails, and the descriptors are as before. Where a call fails, the program
returns `1`, and nothing has been written but the message, behind `hello` if the call is
that of `dup2`. -/
theorem writes_redirected
    (calls : Calls)
    (message : List UInt8)
    (file1 file2 : ι)
    (s : OpenFiles ι) :
    let greeted := greeted calls file2 s.contents
    let t := (main calls message file1 file2 s).2
    ((main calls message file1 file2 s).1 = .returned 0 →
      t.contents = Function.update greeted file1 (overlay (written calls) (greeted file1)) ∧
      t.table.entry = s.table.entry) ∧
    ((main calls message file1 file2 s).1 ≠ .returned 0 →
      (main calls message file1 file2 s).1 = .returned 1 ∧
      (Complained message s s.contents t ∨ Complained message s greeted t)) := by
  cases hopen1 : attempt calls.open1 (s.openFile file1) with
  | none =>
      simp only [main, hopen1]
      exact ⟨nofun, fun _ => ⟨trivial, Or.inl ⟨s, rfl, fun _ => rfl, rfl⟩⟩⟩
  | some opened1 =>
      obtain ⟨fd1, s₁⟩ := opened1
      cases hopen2 : attempt calls.open2 (s₁.openFile file2) with
      | none =>
          have hcontents1 := (OpenFiles.openFile_eq_some (attempt_eq_some hopen1)).2.2.2.2
          simp only [main, hopen1, hopen2]
          refine ⟨nofun, fun _ => ⟨trivial, Or.inl ⟨s₁, hcontents1, fun herr => ?_, rfl⟩⟩⟩
          exact (OpenFiles.openFile_description (attempt_eq_some hopen1) herr).2
      | some opened2 =>
          obtain ⟨fd2, s₂⟩ := opened2
          obtain ⟨hfree1, hfree2, hne, ⟨n, hentry⟩, hdescription, hgreeted, herr⟩ :=
            opened_greeted (attempt_eq_some hopen1) (attempt_eq_some hopen2)
              ((literal "hello").take calls.hello)
          simp only [main, hopen1, hopen2]
          generalize s₂.write fd2 ((literal "hello").take calls.hello) = s₃ at *
          cases hdup2 : attempt calls.dup2 (s₃.dup2 fd1 fd2) with
          | none =>
              dsimp only
              exact ⟨nofun, fun _ => ⟨rfl, Or.inr ⟨s₃, hgreeted, herr, rfl⟩⟩⟩
          | some duplicated =>
              obtain ⟨newfd, s₄⟩ := duplicated
              obtain ⟨rfl, hentry', hdescriptions', hcontents'⟩ :=
                OpenFiles.dup2_eq_some (attempt_eq_some hdup2)
              have hat : s₄.At s.descriptions.length file1 0 :=
                OpenFiles.at_zero (by rw [hdescriptions', hdescription])
              have hfd1 : s₃.table.entry fd1 = some s.descriptions.length := by
                rw [hentry, Function.update_of_ne hne, Function.update_self]
              have holdfd : s₄.table.entry fd1 = some s.descriptions.length := by
                rw [hentry', Function.update_of_ne hne, hfd1]
              have hnewfd : s₄.table.entry newfd = some s.descriptions.length := by
                rw [hentry', Function.update_self, hfd1]
              obtain ⟨hc, -, ht⟩ :=
                hat.write_write holdfd hnewfd
                  ((literal "123").take calls.first) ((literal "567").take calls.second)
              dsimp only
              rw [if_pos rfl]
              refine ⟨fun _ => ⟨?_, ?_⟩, fun h => absurd rfl h⟩
              · rw [OpenFiles.close_contents, OpenFiles.close_contents, hc, hcontents',
                  hgreeted, FileContents.writeAt_zero, greeted, written]
              · rw [OpenFiles.close_entry, OpenFiles.close_entry, ht, hentry', hentry,
                  Function.update_idem, OpenFiles.update_closed hfree1 hfree2]

end Dup2File

end DupPipe
end OsSeminars
