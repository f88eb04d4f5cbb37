import OsSeminars.Foundation.Termination
import OsSeminars.PagingMmap.AllOccurrences

/-!
# 12-paging-mmap/find-substrings-in-file.c: the end of the search

The loop ends when `memmem` returns `NULL`. After the first match the window
ends behind the file, and it may end behind the mapping. What such a call reads
is not part of the program: it may kill the process, return `NULL`, or return an
occurrence in what lies behind the mapping. An occurrence never lies before the
window, and its bytes have addresses; `limit` is the number of addresses from
`ftext` on.

So every match of a pattern moves the pointer towards the limit, except for the
empty pattern, whose occurrences need no address.
-/

namespace OsSeminars
namespace PagingMmap
namespace FindSubstrings

open Foundation

/-- What a call of `memmem` does. -/
inductive Answer where
  | returns (i : Nat)
  | null
  | killed

/-- What the next call of `memmem` may do. -/
def MayAnswer
    (r : Run)
    (limit : Nat)
    (l : LoopState) :
    Answer → Prop :=
  fun answer =>
    match memmem r.ftext r.mappedSize l.pointer (r.windowLength l) r.pattern, answer with
    | .found i, .returns j => j = i
    | .null, .null => True
    | .undefined, .returns j => l.pointer ≤ j ∧ j + r.pattern.length ≤ limit
    | .undefined, .null => True
    | .undefined, .killed => True
    | _, _ => False

/-- The state after the call has been answered. -/
def continueWith
    (l : LoopState) :
    Answer → State
  | .returns pointer =>
      let delta := toInt32 pointer
      .loop
        { pointer := pointer + 1
          delta := delta
          printed := l.printed ++ [delta] }
  | .null => .exited 0 "" l.printed
  | .killed => .undefined

/-- One evaluation of the loop condition and, if it holds, of the loop body. -/
def Step
    (r : Run)
    (limit : Nat)
    (s t : State) :
    Prop :=
  ∃ l answer, s = .loop l ∧ MayAnswer r limit l answer ∧ t = continueWith l answer

section Calls

variable {r : Run} {limit : Nat} {l : LoopState}

/-- Where the window is mapped the step is the one of the program. -/
theorem step_iff_next
    {t : State}
    (hdefined : next r (.loop l) ≠ some .undefined) :
    Step r limit (.loop l) t ↔ next r (.loop l) = some t := by
  have hcall : Step r limit (.loop l) t ↔
      ∃ answer, MayAnswer r limit l answer ∧ t = continueWith l answer := by
    simp [Step]
  rw [hcall]
  unfold MayAnswer
  simp only [next] at hdefined ⊢
  cases hmem : memmem r.ftext r.mappedSize l.pointer (r.windowLength l) r.pattern with
  | found i =>
      constructor
      · rintro ⟨answer, hanswer, rfl⟩
        cases answer with
        | returns j =>
            cases hanswer
            rfl
        | null => exact hanswer.elim
        | killed => exact hanswer.elim
      · rintro h
        exact ⟨.returns i, rfl, (Option.some.inj h).symm⟩
  | null =>
      constructor
      · rintro ⟨answer, hanswer, rfl⟩
        cases answer with
        | returns j => exact hanswer.elim
        | null => rfl
        | killed => exact hanswer.elim
      · rintro h
        exact ⟨.null, trivial, (Option.some.inj h).symm⟩
  | undefined =>
      rw [hmem] at hdefined
      exact absurd rfl hdefined

/-- An occurrence in a mapped window lies behind its start and inside the mapping. -/
theorem found_inside
    {i : Nat}
    (hpattern : r.pattern ≠ [])
    (h : memmem r.ftext r.mappedSize l.pointer (r.windowLength l) r.pattern = .found i) :
    l.pointer ≤ i ∧ i + r.pattern.length ≤ r.mappedSize := by
  unfold memmem at h
  rw [if_neg hpattern] at h
  split at h
  · next hmapped =>
      split at h
      · next j hj =>
          cases h
          obtain ⟨-, hlow, hhigh, -⟩ := firstFrom_eq_some_iff.mp hj
          omega
      · cases h
  · cases h

/-- However the call of `memmem` ends, a match of a pattern has its bytes in
the address space, at the pointer or behind it. -/
theorem returns_inside
    {i : Nat}
    (hmapped : r.mappedSize ≤ limit)
    (hpattern : r.pattern ≠ [])
    (h : MayAnswer r limit l (.returns i)) :
    l.pointer ≤ i ∧ i + r.pattern.length ≤ limit := by
  unfold MayAnswer at h
  cases hmem : memmem r.ftext r.mappedSize l.pointer (r.windowLength l) r.pattern with
  | found j =>
      rw [hmem] at h
      subst h
      obtain ⟨hlow, hhigh⟩ := found_inside hpattern hmem
      exact ⟨hlow, by omega⟩
  | null =>
      rw [hmem] at h
      exact h.elim
  | undefined =>
      rw [hmem] at h
      exact h

end Calls

section Ending

variable {r : Run} {limit : Nat}

/-- The number of addresses that the search has not passed yet. -/
def State.left
    (limit : Nat) :
    State → Nat
  | .loop l => limit + 1 - l.pointer
  | .exited _ _ _ => 0
  | .undefined => 0

/-- The pointer has not left the address space. -/
def State.Inside
    (limit : Nat) :
    State → Prop
  | .loop l => l.pointer ≤ limit
  | .exited _ _ _ => True
  | .undefined => True

theorem step_lowers_left
    {s t : State}
    (hmapped : r.mappedSize ≤ limit)
    (hpattern : r.pattern ≠ [])
    (hs : s.Inside limit)
    (h : Step r limit s t) :
    t.Inside limit ∧ t.left limit < s.left limit := by
  have hpos := List.length_pos_iff.mpr hpattern
  obtain ⟨l, answer, rfl, hanswer, rfl⟩ := h
  have hin : l.pointer ≤ limit := hs
  cases answer with
  | returns i =>
      obtain ⟨hlow, hhigh⟩ := returns_inside hmapped hpattern hanswer
      simp only [continueWith, State.Inside, State.left]
      omega
  | null =>
      refine ⟨trivial, ?_⟩
      simp only [continueWith, State.left]
      omega
  | killed =>
      refine ⟨trivial, ?_⟩
      simp only [continueWith, State.left]
      omega

/-- With the empty pattern `memmem` returns the start of its window. -/
theorem step_of_empty_pattern
    (hpattern : r.pattern = [])
    (l : LoopState) :
    Step r limit (.loop l) (continueWith l (.returns l.pointer)) := by
  refine ⟨l, .returns l.pointer, rfl, ?_, rfl⟩
  simp [MayAnswer, memmem, hpattern]

theorem diverges_of_empty_pattern
    (hpattern : r.pattern = [])
    (hcalls : r.CallsSucceed)
    (hfile : r.file ≠ []) :
    Diverges (Step r limit) (start r) := by
  rw [start_of_calls hcalls hfile]
  refine diverges_of_progress (I := fun s => ∃ l, s = .loop l) ?_ ⟨_, rfl⟩
  rintro s ⟨l, rfl⟩
  exact ⟨_, step_of_empty_pattern hpattern l, _, rfl⟩

theorem terminates_of_pattern
    (hmapped : r.mappedSize ≤ limit)
    (hpattern : r.pattern ≠ [])
    (hcalls : r.CallsSucceed)
    (hfile : r.file ≠ []) :
    Terminates (Step r limit) (start r) := by
  rw [start_of_calls hcalls hfile]
  exact terminates_of_measure (I := State.Inside limit) (State.left limit)
    (fun s t hs h => (step_lowers_left hmapped hpattern hs h).1)
    (fun s t hs h => (step_lowers_left hmapped hpattern hs h).2)
    (Nat.zero_le _)

/-- A failed call ends the program before its loop. -/
theorem terminates_of_failed_call
    (hcalls : ¬ r.CallsSucceed) :
    Terminates (Step r limit) (start r) := by
  obtain ⟨code, stderr, hexit⟩ := start_exited (fun h => hcalls h.1)
  refine terminates_of_stuck ?_
  rintro t ⟨l, -, hl, -⟩
  rw [hexit] at hl
  cases hl

/--
The program terminates on a file that is not empty, unless it reaches its loop
with the empty pattern, and then no run of it ends.
-/
theorem terminates_iff_pattern_ne_nil
    (r : Run)
    (limit : Nat)
    (hmapped : r.mappedSize ≤ limit)
    (hfile : r.file ≠ []) :
    Terminates (Step r limit) (start r) ↔ (r.CallsSucceed → r.pattern ≠ []) := by
  constructor
  · intro hends hcalls hpattern
    exact hends (diverges_of_empty_pattern hpattern hcalls hfile)
  · intro hpattern
    by_cases hcalls : r.CallsSucceed
    · exact terminates_of_pattern hmapped (hpattern hcalls) hcalls hfile
    · exact terminates_of_failed_call hcalls

/-- The file `a` searched for `a`. -/
theorem terminates_oneMatch :
    Terminates (Step oneMatch sizeMod) (start oneMatch) :=
  (terminates_iff_pattern_ne_nil oneMatch sizeMod (by decide) (by decide)).mpr
    (fun _ => by decide)

/-- The file `a` searched for the empty string. -/
def emptyPattern : Run :=
  { oneMatch with pattern := [] }

theorem not_terminates_emptyPattern :
    emptyPattern.argc = 3 ∧ emptyPattern.file ≠ [] ∧
      ¬ Terminates (Step emptyPattern sizeMod) (start emptyPattern) := by
  refine ⟨rfl, by decide, fun hends => ?_⟩
  exact hends (diverges_of_empty_pattern rfl ⟨rfl, by decide, rfl, rfl⟩ (by decide))

end Ending

end FindSubstrings
end PagingMmap
end OsSeminars
