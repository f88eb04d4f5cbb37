import Mathlib.Data.List.DropRight

/-!
# Foundation: output streams of the C library

What a program prints is kept in the memory of the process until the stream is flushed.
A stream that leads to a terminal is buffered by lines: when a text is printed,
everything up to its last line break is passed on. Any other stream is passed on when it
is flushed only, and `exit` flushes it. Which of the two it is, is decided when the
stream is used for the first time.

The texts are short enough for the buffer, so it is never flushed because it is full.
-/

namespace OsSeminars
namespace Foundation

inductive Buffering where
  | line
  | full
deriving DecidableEq

/-- A stream before its first use has no kind of buffering yet. -/
structure OutStream where
  buffering : Option Buffering
  pending : List UInt8
deriving DecidableEq

namespace OutStream

/-- The stream with which a program starts. -/
def fresh : OutStream where
  buffering := none
  pending := []

/-- The kind of buffering, given whether the stream leads to a terminal now. -/
def mode
    (st : OutStream)
    (terminal : Bool) :
    Buffering :=
  st.buffering.getD (if terminal then .line else .full)

/-- The part of a text up to its last line break, and what is behind it. -/
def wholeLines
    (text : List UInt8) :
    List UInt8 :=
  text.rdropWhile (· ≠ 10)

def unfinishedLine
    (text : List UInt8) :
    List UInt8 :=
  text.rtakeWhile (· ≠ 10)

/-- `printf`: what is passed on, and the stream behind it. -/
def put
    (st : OutStream)
    (terminal : Bool)
    (text : List UInt8) :
    List UInt8 × OutStream :=
  match st.mode terminal with
  | .line =>
      (wholeLines (st.pending ++ text), ⟨some .line, unfinishedLine (st.pending ++ text)⟩)
  | .full => ([], ⟨some .full, st.pending ++ text⟩)

/-- `fflush`, and what `exit` does. -/
def flush
    (st : OutStream) :
    List UInt8 × OutStream :=
  (st.pending, { st with pending := [] })

variable {st : OutStream} {terminal : Bool} {text front : List UInt8}

theorem wholeLines_concat
    (front : List UInt8) :
    wholeLines (front ++ [10]) = front ++ [10] :=
  List.rdropWhile_concat_neg _ _ _ (by decide)

theorem unfinishedLine_concat
    (front : List UInt8) :
    unfinishedLine (front ++ [10]) = [] :=
  List.rtakeWhile_concat_neg _ _ _ (by decide)

theorem mode_of_some
    {buffering : Buffering}
    (h : st.buffering = some buffering)
    (terminal : Bool) :
    st.mode terminal = buffering := by
  rw [mode, h, Option.getD_some]

theorem put_of_full
    (h : st.mode terminal = .full)
    (text : List UInt8) :
    st.put terminal text = ([], ⟨some .full, st.pending ++ text⟩) := by
  rw [put, h]

/-- A text that ends with a line break leaves nothing behind in a stream buffered by
lines. -/
theorem put_of_line
    (h : st.mode terminal = .line)
    (front : List UInt8) :
    st.put terminal (front ++ [10]) = (st.pending ++ front ++ [10], ⟨some .line, []⟩) := by
  rw [put, h]
  simp only [← List.append_assoc, wholeLines_concat, unfinishedLine_concat]

@[simp] theorem flush_fst :
    st.flush.1 = st.pending :=
  rfl

/-- A text that ends with a line break. -/
def EndsLine
    (text : List UInt8) :
    Prop :=
  ∃ front, text = front ++ [10]

@[simp] theorem put_fresh_terminal
    (h : EndsLine text) :
    fresh.put true text = (text, ⟨some .line, []⟩) := by
  obtain ⟨front, rfl⟩ := h
  exact put_of_line rfl front

@[simp] theorem put_line
    (h : EndsLine text) :
    put ⟨some .line, []⟩ terminal text = (text, ⟨some .line, []⟩) := by
  obtain ⟨front, rfl⟩ := h
  exact put_of_line rfl front

@[simp] theorem put_fresh_file
    (text : List UInt8) :
    fresh.put false text = ([], ⟨some .full, text⟩) :=
  put_of_full rfl text

@[simp] theorem put_full
    (before text : List UInt8) :
    put ⟨some .full, before⟩ terminal text = ([], ⟨some .full, before ++ text⟩) :=
  put_of_full rfl text

/-- A text without a line break is kept, whatever the stream leads to. -/
theorem put_fresh_unfinished
    (h : 10 ∉ text)
    (terminal : Bool) :
    (fresh.put terminal text).1 = [] ∧ (fresh.put terminal text).2.pending = text := by
  have hall : ∀ c ∈ text, (decide (c ≠ 10)) = true := by
    intro c hc
    rw [decide_eq_true_eq]
    rintro rfl
    exact h hc
  cases terminal with
  | false =>
      simp
  | true =>
      exact ⟨List.rdropWhile_eq_nil_iff.mpr hall, List.rtakeWhile_eq_self_iff.mpr hall⟩

end OutStream

end Foundation
end OsSeminars
