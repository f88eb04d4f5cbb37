import Mathlib.Algebra.Ring.Int.Defs
import Mathlib.Tactic.Common

/-!
# Foundation: `scanf("%d")` on a text

A call skips white space, then takes an optional sign and the longest run of digits.
Without a digit there is no match: the first character that does not fit is left in
the text, while a sign in front of it has been taken. At the end of the text the call
returns `EOF`. The number is read as a `long`, at whose bounds it stops.

Repeated calls read the text number by number, until it ends or something in it is not
a number.
-/

namespace OsSeminars
namespace Foundation
namespace ScanInt

/-- `isspace(c)`. -/
def isSpace
    (c : UInt8) :
    Bool :=
  c = 32 || (9 ≤ c && c ≤ 13)

/-- `isdigit(c)`. -/
def isDigit
    (c : UInt8) :
    Bool :=
  48 ≤ c && c ≤ 57

/-- What a call returns and the text it leaves. -/
inductive Outcome
  | number (value : Int) (rest : List UInt8)
  | noMatch (rest : List UInt8)
  | eof
  deriving DecidableEq

/-- The value of a run of decimal digits. -/
def digitsValue
    (digits : List UInt8) :
    Nat :=
  digits.foldl (fun value c => 10 * value + (c.toNat - 48)) 0

/-- The bound of `long` for a number outside of its range. -/
def clampLong
    (value : Int) :
    Int :=
  max (-2 ^ 63) (min value (2 ^ 63 - 1))

/-- The part behind the sign. -/
def scanDigits
    (sign : Int)
    (text : List UInt8) :
    Outcome :=
  match text.takeWhile isDigit with
  | [] => .noMatch text
  | digit :: digits =>
      .number (clampLong (sign * digitsValue (digit :: digits))) (text.dropWhile isDigit)

/-- `scanf("%d", ..)`. -/
def scanInt
    (text : List UInt8) :
    Outcome :=
  match text.dropWhile isSpace with
  | [] => .eof
  | c :: rest =>
      if c = 45 then scanDigits (-1) rest
      else if c = 43 then scanDigits 1 rest
      else scanDigits 1 (c :: rest)

/-- A number takes at least one character of the text. -/
theorem length_lt_of_scanDigits
    {sign value : Int}
    {text rest : List UInt8}
    (h : scanDigits sign text = .number value rest) :
    rest.length < text.length := by
  cases hdigits : text.takeWhile isDigit with
  | nil =>
      simp [scanDigits, hdigits] at h
  | cons digit digits =>
      simp only [scanDigits, hdigits, Outcome.number.injEq] at h
      have hsplit := congrArg List.length (List.takeWhile_append_dropWhile (p := isDigit)
        (l := text))
      rw [List.length_append, hdigits, h.2, List.length_cons] at hsplit
      omega

theorem length_lt_of_scanInt
    {value : Int}
    {text rest : List UInt8}
    (h : scanInt text = .number value rest) :
    rest.length < text.length := by
  have hskip := (List.dropWhile_suffix isSpace (l := text)).length_le
  cases hstart : text.dropWhile isSpace with
  | nil =>
      simp [scanInt, hstart] at h
  | cons c tail =>
      rw [hstart, List.length_cons] at hskip
      simp only [scanInt, hstart] at h
      split_ifs at h
      · have hless := length_lt_of_scanDigits h
        omega
      · have hless := length_lt_of_scanDigits h
        omega
      · have hless := length_lt_of_scanDigits h
        rw [List.length_cons] at hless
        omega

/-- A call without a match leaves a part of the text. -/
theorem length_le_of_noMatch
    {text rest : List UInt8}
    (h : scanInt text = .noMatch rest) :
    rest.length ≤ text.length := by
  have hskip := (List.dropWhile_suffix isSpace (l := text)).length_le
  have hdigits {sign : Int} {tail : List UInt8} (hscan : scanDigits sign tail = .noMatch rest) :
      rest = tail := by
    rw [scanDigits] at hscan
    split at hscan <;> cases hscan
    rfl
  cases hstart : text.dropWhile isSpace with
  | nil =>
      simp [scanInt, hstart] at h
  | cons c tail =>
      rw [hstart, List.length_cons] at hskip
      simp only [scanInt, hstart] at h
      split_ifs at h <;> rw [hdigits h]
      · omega
      · omega
      · exact hskip

/-- The numbers that repeated calls read. -/
def numbers
    (text : List UInt8) :
    List Int :=
  match _h : scanInt text with
  | .eof => []
  | .noMatch _ => []
  | .number value rest => value :: numbers rest
termination_by text.length
decreasing_by exact length_lt_of_scanInt _h

/-- Repeated calls read numbers only, up to the end of the text. -/
def onlyNumbers
    (text : List UInt8) :
    Bool :=
  match _h : scanInt text with
  | .eof => true
  | .noMatch _ => false
  | .number _ rest => onlyNumbers rest
termination_by text.length
decreasing_by exact length_lt_of_scanInt _h

variable {text rest : List UInt8} {value : Int}

theorem numbers_of_eof
    (h : scanInt text = .eof) :
    numbers text = [] ∧ onlyNumbers text = true := by
  rw [numbers, onlyNumbers]
  split
  · exact ⟨rfl, rfl⟩
  · next heq =>
      rw [h] at heq
      cases heq
  · next heq =>
      rw [h] at heq
      cases heq

theorem numbers_of_noMatch
    (h : scanInt text = .noMatch rest) :
    numbers text = [] ∧ onlyNumbers text = false := by
  rw [numbers, onlyNumbers]
  split
  · next heq =>
      rw [h] at heq
      cases heq
  · exact ⟨rfl, rfl⟩
  · next heq =>
      rw [h] at heq
      cases heq

theorem numbers_of_number
    (h : scanInt text = .number value rest) :
    numbers text = value :: numbers rest ∧ onlyNumbers text = onlyNumbers rest := by
  rw [numbers.eq_def text, onlyNumbers.eq_def text]
  split
  · next heq =>
      rw [h] at heq
      cases heq
  · next heq =>
      rw [h] at heq
      cases heq
  · next heq =>
      rw [h] at heq
      cases heq
      exact ⟨rfl, rfl⟩

end ScanInt
end Foundation
end OsSeminars
