import OsSeminars.Foundation.CString

/-!
# 13-fork-and-exec/12-0.c

The program reads a line into a buffer, removes its line break and puts it between a
prefix and a suffix, for which it has a second buffer of the same size. The command so
obtained is passed to `python3`.

The first buffer is not initialised, and the result of `fgets` is not looked at. So at
the end of the input the program goes on with what the buffer happens to contain. A line
for which the second buffer is too small is cut off, and so is one with a zero.
-/

namespace OsSeminars
namespace ForkAndExec
namespace PyExec

open Foundation
open CString (literal strlen delivered fgets snprintf)

/-- `buff_size` -/
def buffSize : Nat :=
  4096

/-- How `main` goes on: it returns, it passes a command to `execlp`, or it has read behind
the end of the buffer. -/
inductive Outcome
  | exit (status : Int)
  | execlp (execstr : List UInt8)
  | undefined
  deriving DecidableEq

/-- `"a = %s; print(a)"` -/
def command
    (line : List UInt8) :
    List UInt8 :=
  literal "a = " ++ line ++ literal "; print(a)"

/-- `if ('\n' == buffer[len - 1]) buffer[len - 1] = '\0'` -/
def stripNewline
    (buffer : List UInt8)
    (len : Nat) :
    List UInt8 :=
  if buffer[len - 1]? = some 10 then buffer.set (len - 1) 0 else buffer

/-- `main`, up to the call of `execlp`. -/
def main
    (buffer : Buffer UInt8 buffSize)
    (stdin : List UInt8) :
    Outcome :=
  match strlen (fgets buffer stdin).contents with
  | none => .undefined
  | some len =>
      if len = 0 then .exit 0
      else
        let stripped := stripNewline (fgets buffer stdin).contents len
        match strlen stripped with
        | none => .undefined
        | some n => .execlp (snprintf buffSize (command (stripped.take n)))

/-- A line without its line break. -/
def withoutNewline
    (line : List UInt8) :
    List UInt8 :=
  if line.getLast? = some 10 then line.dropLast else line

/-- The program returns, or it passes the command for the whole line that has been
delivered. -/
def RunsWholeLine
    (buffer : Buffer UInt8 buffSize)
    (stdin : List UInt8) :
    Prop :=
  match main buffer stdin with
  | .exit _ => True
  | .execlp execstr =>
      delivered buffSize stdin ≠ [] ∧
        execstr = command (withoutNewline (delivered buffSize stdin))
  | .undefined => False

section Lines

variable {line text : List UInt8} {buffer : Buffer UInt8 buffSize} {stdin : List UInt8}

theorem length_command :
    (command line).length = line.length + 14 := by
  have hprefix : (literal "a = ").length = 4 := by decide
  have hsuffix : (literal "; print(a)").length = 10 := by decide
  rw [command, List.length_append, List.length_append, hprefix, hsuffix]
  omega

theorem zero_mem_command_iff :
    0 ∈ command line ↔ 0 ∈ line := by
  have hprefix : 0 ∉ literal "a = " := by decide
  have hsuffix : 0 ∉ literal "; print(a)" := by decide
  simp [command, hprefix, hsuffix]

/-- The line break is not a zero. -/
theorem zero_mem_withoutNewline_iff :
    0 ∈ withoutNewline line ↔ 0 ∈ line := by
  rw [withoutNewline]
  split_ifs with hlast
  · obtain ⟨front, rfl⟩ := List.getLast?_eq_some_iff.mp hlast
    simp
  · rfl

/-- The line break of a string is replaced by the zero that ends it. -/
theorem stripNewline_eq
    (hne : text ≠ [])
    (rest : List UInt8) :
    ∃ rest', stripNewline (text ++ 0 :: rest) text.length =
      withoutNewline text ++ 0 :: rest' := by
  rcases List.eq_nil_or_concat text with hnil | ⟨front, c, rfl⟩
  · exact absurd hnil hne
  · have hlast : (front ++ [c] ++ 0 :: rest)[(front ++ [c]).length - 1]? = some c := by
      simp
    rw [List.concat_eq_append, stripNewline, hlast, withoutNewline, List.getLast?_concat]
    by_cases hc : c = 10
    · subst hc
      refine ⟨0 :: rest, ?_⟩
      simp
    · have hother : ¬some c = some 10 := fun h => hc (Option.some.inj h)
      rw [if_neg hother, if_neg hother]
      exact ⟨rest, rfl⟩

/-- What becomes of a string in the buffer that is not empty. -/
theorem main_of_contents
    {rest : List UInt8}
    (h : (fgets buffer stdin).contents = text ++ 0 :: rest)
    (hzero : 0 ∉ text)
    (hne : text ≠ []) :
    main buffer stdin = .execlp (snprintf buffSize (command (withoutNewline text))) := by
  obtain ⟨rest', hstripped⟩ := stripNewline_eq hne rest
  have hlen := CString.strlen_append_zero hzero rest
  have hlen' := CString.strlen_append_zero (mt zero_mem_withoutNewline_iff.mp hzero) rest'
  rw [main, h, hlen]
  dsimp only
  rw [if_neg (mt List.length_eq_zero_iff.mp hne), hstripped, hlen']
  dsimp only
  rw [List.take_left]

/-- At the end of the input the buffer decides. -/
theorem runsWholeLine_iff_of_eof
    (heof : delivered buffSize stdin = []) :
    RunsWholeLine buffer stdin ↔ buffer.contents.head? = some 0 := by
  rw [← CString.strlen_eq_zero_iff, RunsWholeLine, main, CString.fgets_of_eof heof]
  constructor
  · intro h
    split at h
    · next hexit =>
        split at hexit
        · cases hexit
        · next len hlen =>
            split_ifs at hexit with hzero
            · rw [hlen, hzero]
            · dsimp only at hexit
              split at hexit <;> cases hexit
    · exact absurd heof h.1
    · exact h.elim
  · intro hlen
    rw [hlen]
    trivial

/-- A zero in the line cuts it off. -/
theorem not_runsWholeLine_of_zero
    {rest : List UInt8}
    (h : delivered buffSize stdin = text ++ 0 :: rest)
    (hzero : 0 ∉ text)
    (hne : text ≠ []) :
    ¬RunsWholeLine buffer stdin := by
  have hnonempty : delivered buffSize stdin ≠ [] := by
    rw [h]
    simp
  obtain ⟨rest', hcontents⟩ :=
    CString.contents_fgets buffer (by decide) hnonempty
  rw [h, List.append_assoc] at hcontents
  rw [RunsWholeLine, main_of_contents hcontents hzero hne]
  rintro ⟨-, hcommand⟩
  have hmem : 0 ∈ command (withoutNewline (delivered buffSize stdin)) := by
    rw [zero_mem_command_iff, zero_mem_withoutNewline_iff, h]
    simp
  rw [← hcommand] at hmem
  have hkept := List.mem_of_mem_take hmem
  rw [zero_mem_command_iff, zero_mem_withoutNewline_iff] at hkept
  exact hzero hkept

/-- A line without a zero is passed on if the second buffer has room for the command. -/
theorem runsWholeLine_iff_of_line
    (hne : delivered buffSize stdin ≠ [])
    (hzero : 0 ∉ delivered buffSize stdin) :
    RunsWholeLine buffer stdin ↔
      (withoutNewline (delivered buffSize stdin)).length ≤ 4081 := by
  obtain ⟨rest, hcontents⟩ :=
    CString.contents_fgets buffer (by decide) hne
  rw [RunsWholeLine, main_of_contents hcontents hzero hne]
  have hroom : snprintf buffSize (command (withoutNewline (delivered buffSize stdin))) =
      command (withoutNewline (delivered buffSize stdin)) ↔
        (withoutNewline (delivered buffSize stdin)).length + 14 < 4096 := by
    rw [CString.snprintf_eq_iff (by decide), length_command]
    rfl
  constructor
  · rintro ⟨-, hcommand⟩
    have := hroom.mp hcommand
    omega
  · intro hlength
    exact ⟨hne, hroom.mpr (by omega)⟩

/-- The program returns or runs the whole line, if and only if nothing has been delivered
and the buffer begins with a zero, or the line begins with a zero, or it has none and is
short enough. -/
theorem runsWholeLine_iff
    (buffer : Buffer UInt8 buffSize)
    (stdin : List UInt8) :
    RunsWholeLine buffer stdin ↔
      delivered buffSize stdin = [] ∧ buffer.contents.head? = some 0 ∨
      (delivered buffSize stdin).head? = some 0 ∨
      delivered buffSize stdin ≠ [] ∧ 0 ∉ delivered buffSize stdin ∧
        (withoutNewline (delivered buffSize stdin)).length ≤ 4081 := by
  by_cases heof : delivered buffSize stdin = []
  · rw [runsWholeLine_iff_of_eof heof, heof]
    simp
  · by_cases hzero : 0 ∈ delivered buffSize stdin
    · obtain ⟨text, rest, hsplit, hfirst⟩ := List.eq_append_cons_of_mem hzero
      cases text with
      | nil =>
          refine iff_of_true ?_ (Or.inr (Or.inl (by rw [hsplit]; rfl)))
          obtain ⟨rest', hcontents⟩ :=
            CString.contents_fgets buffer (by decide) heof
          rw [hsplit] at hcontents
          have hlen : strlen (fgets buffer stdin).contents = some 0 := by
            rw [hcontents]
            rfl
          rw [RunsWholeLine, main, hlen]
          trivial
      | cons c text =>
          refine iff_of_false (not_runsWholeLine_of_zero hsplit hfirst (by simp)) ?_
          rintro (⟨hnil, -⟩ | hhead | ⟨-, hnone, -⟩)
          · exact heof hnil
          · rw [hsplit] at hhead
            cases hhead
            exact hfirst List.mem_cons_self
          · exact hnone hzero
    · rw [runsWholeLine_iff_of_line heof hzero]
      have hhead : (delivered buffSize stdin).head? ≠ some 0 :=
        fun h => hzero (List.mem_of_head? h)
      simp [heof, hhead, hzero]

/-- A line of letters `a` for which the second buffer has no room. -/
def longLine : List UInt8 :=
  List.replicate 4082 97

/-- A buffer in which `fgets` has stored nothing yet. -/
def garbage : Buffer UInt8 buffSize where
  contents := List.replicate 4095 97 ++ [0]
  size_eq := by
    rw [List.length_append, List.length_replicate]
    rfl

/-- A long line is cut off, and at the end of the input unread bytes are run. -/
theorem not_runsWholeLine_longLine :
    ¬RunsWholeLine garbage (longLine ++ [10]) ∧ ¬RunsWholeLine garbage [] := by
  constructor
  · have hletters (c : UInt8) (hc : c ∈ longLine) : c = 97 := List.eq_of_mem_replicate hc
    have hline : delivered buffSize (longLine ++ [10]) = longLine ++ [10] := by
      have hlength : (longLine ++ [10]).length ≤ buffSize - 1 := by
        rw [List.length_append, longLine, List.length_replicate]
        decide
      rw [delivered, CString.firstLine_append fun h => absurd (hletters 10 h) (by decide),
        List.take_of_length_le hlength]
    have hzero : 0 ∉ longLine ++ [10] := by
      intro hmem
      rcases List.mem_append.mp hmem with hmem | hmem
      · exact absurd (hletters 0 hmem) (by decide)
      · exact absurd (List.mem_singleton.mp hmem) (by decide)
    rw [runsWholeLine_iff_of_line (by rw [hline]; simp) (by rwa [hline]), hline,
      withoutNewline, List.getLast?_concat, if_pos rfl, List.dropLast_concat, longLine,
      List.length_replicate]
    decide
  · rw [runsWholeLine_iff_of_eof rfl]
    decide

end Lines

end PyExec
end ForkAndExec
end OsSeminars
