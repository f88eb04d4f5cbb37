import OsSeminars.Foundation.FileContents
import OsSeminars.Foundation.MachineInt

/-!
# `lseek.c`: counting up the second byte of a file

The program asks for the size of a file, writes two digits to a file with less than two
bytes, and then replaces the second byte by the next digit. The size is an `off_t` that
is stored in an `int`. From `2 ^ 31` bytes on what is stored may be negative, and the two
digits are written over the beginning of a file that is not short at all.

All calls succeed.
-/

namespace OsSeminars
namespace Files
namespace Lseek

open Foundation

/-- The file with the position of its descriptor, the variables of `main` and the
texts printed. -/
structure State where
  contents : List UInt8
  position : Nat
  size : Int
  c : UInt8
  printed : List String

/-- `size = lseek(fd, 0, SEEK_END)`. -/
def seekEnd
    (s : State) :
    State :=
  { s with
    position := s.contents.length
    size := toInt32 s.contents.length }

/-- `lseek(fd, offset, SEEK_SET)`. -/
def seekSet
    (offset : Nat)
    (s : State) :
    State :=
  { s with position := offset }

/-- `write(fd, bytes, n)` of `n` bytes. -/
def writeBytes
    (bytes : List UInt8)
    (s : State) :
    State :=
  { s with
    contents := FileContents.writeAt s.contents s.position bytes
    position := s.position + bytes.length }

/-- `read(fd, &c, 1)`, which stores nothing at the end of the file. -/
def readC
    (s : State) :
    State :=
  match s.contents[s.position]? with
  | some b => { s with c := b, position := s.position + 1 }
  | none => s

/-- `printf` with one number. -/
def printNumber
    (text : String)
    (number : Int)
    (s : State) :
    State :=
  { s with printed := s.printed ++ [text ++ toString number ++ "\n"] }

/-- `const char s[] = "10"`, without its zero. -/
def digits : List UInt8 :=
  [49, 48]

/-- The body of `if (size < 2)`. -/
def appendDigits
    (s : State) :
    State :=
  let s := writeBytes digits (seekSet 0 s)
  let s := printNumber "Written bytes: " digits.length s
  let s := seekEnd s
  printNumber "File size: " s.size s

/-- `(c < '0' || c > '9') ? '0' : ((c - '0') + 1) % 10 + '0'`. -/
def nextC
    (c : UInt8) :
    UInt8 :=
  if c < 48 ∨ c > 57 then 48 else UInt8.ofNat ((c.toNat - 48 + 1) % 10 + 48)

/-- `c` is read from the second byte, replaced, and written back. -/
def countUp
    (s : State) :
    State :=
  let s := readC (seekSet 1 s)
  let s := { s with c := nextC s.c }
  writeBytes [s.c] (seekSet 1 s)

/-- `main` behind the call of `open`, up to the first output; the variables are not
initialised. -/
def shown
    (contents : List UInt8)
    (size : Int)
    (c : UInt8) :
    State :=
  let s := seekEnd { contents, position := 0, size, c, printed := [] }
  printNumber "File size: " s.size s

/-- `main`. -/
def main
    (contents : List UInt8)
    (size : Int)
    (c : UInt8) :
    State :=
  let s := shown contents size c
  countUp (if s.size < 2 then appendDigits s else s)

/-- The next decimal digit, zero behind nine, and zero for what is not a digit. -/
def nextDigit
    (c : UInt8) :
    UInt8 :=
  if c = 57 then 48
  else if 48 ≤ c ∧ c < 57 then c + 1
  else 48

/-- Only the second byte has changed, to the next digit. -/
structure CountedUp
    (before after : List UInt8) :
    Prop where
  length : after.length = before.length
  others : ∀ i, i ≠ 1 → after[i]? = before[i]?
  second : after[1]? = before[1]?.map nextDigit

variable {contents : List UInt8} {size : Int} {c : UInt8}

theorem nextC_eq_nextDigit
    (c : UInt8) :
    nextC c = nextDigit c := by
  have h48 : (48 : UInt8).toNat = 48 := rfl
  have h57 : (57 : UInt8).toNat = 57 := rfl
  by_cases hnine : c = 57
  · subst hnine
    decide
  · have hne : c.toNat ≠ 57 := fun h => hnine (UInt8.toNat_inj.mp (h.trans h57.symm))
    rw [nextC, nextDigit, if_neg hnine]
    simp only [UInt8.lt_iff_toNat_lt, UInt8.le_iff_toNat_le, gt_iff_lt, h48, h57]
    by_cases hdigit : c.toNat < 48 ∨ 57 < c.toNat
    · rw [if_pos hdigit, if_neg (by omega)]
    · rw [if_neg hdigit, if_pos (by omega), ← UInt8.toNat_inj, UInt8.toNat_ofNat',
        UInt8.toNat_add]
      have hone : (1 : UInt8).toNat = 1 := rfl
      rw [hone]
      omega

/-- The digit behind zero is one. -/
theorem nextDigit_eq_one_iff
    {c : UInt8} :
    nextDigit c = 49 ↔ c = 48 := by
  rw [nextDigit]
  split_ifs with hnine hdigit
  · rw [hnine]
    decide
  · rw [← UInt8.toNat_inj, ← UInt8.toNat_inj, UInt8.toNat_add]
    simp only [UInt8.lt_iff_toNat_lt, UInt8.le_iff_toNat_le] at hdigit
    have h48 : (48 : UInt8).toNat = 48 := rfl
    have h49 : (49 : UInt8).toNat = 49 := rfl
    have h57 : (57 : UInt8).toNat = 57 := rfl
    have hone : (1 : UInt8).toNat = 1 := rfl
    omega
  · refine iff_of_false (by decide) ?_
    rintro rfl
    exact hdigit (by decide)

theorem contents_countUp
    {s : State}
    {b : UInt8}
    (hb : s.contents[1]? = some b) :
    (countUp s).contents = FileContents.writeAt s.contents 1 [nextDigit b] := by
  simp only [countUp, seekSet, readC, hb, writeBytes, nextC_eq_nextDigit]

@[simp] theorem contents_shown
    (contents : List UInt8)
    (size : Int)
    (c : UInt8) :
    (shown contents size c).contents = contents :=
  rfl

@[simp] theorem size_shown
    (contents : List UInt8)
    (size : Int)
    (c : UInt8) :
    (shown contents size c).size = toInt32 contents.length := by
  simp only [shown, printNumber, seekEnd]

@[simp] theorem contents_appendDigits
    (s : State) :
    (appendDigits s).contents = FileContents.writeAt s.contents 0 digits :=
  rfl

/-- A file whose size the variable shows to be at least two. -/
theorem main_of_large
    (hlarge : 2 ≤ toInt32 contents.length)
    {b : UInt8}
    (hb : contents[1]? = some b) :
    (main contents size c).contents =
      FileContents.writeAt contents 1 [nextDigit b] := by
  have hsize : ¬(shown contents size c).size < 2 := by
    rw [size_shown]
    omega
  have hshown : (shown contents size c).contents[1]? = some b := hb
  rw [main, if_neg hsize, contents_countUp hshown, contents_shown]

/-- Any other file begins with `11` afterwards. -/
theorem main_of_small
    (hsmall : toInt32 contents.length < 2) :
    (main contents size c).contents =
      FileContents.writeAt (FileContents.writeAt contents 0 digits) 1 [49] := by
  have hsize : (shown contents size c).size < 2 := by
    rw [size_shown]
    exact hsmall
  have hsecond : (FileContents.writeAt contents 0 digits)[1]? = some 48 :=
    FileContents.getElem?_writeAt_add (i := 1) (by decide) (Nat.zero_le _)
  have hone : nextDigit 48 = 49 := by decide
  rw [main, if_pos hsize, contents_countUp (b := 48), contents_appendDigits,
    contents_shown, hone]
  rw [contents_appendDigits, contents_shown]
  exact hsecond

/-- Writing the next digit over the second byte counts it up. -/
theorem countedUp_writeAt
    {b : UInt8}
    (hlength : 2 ≤ contents.length)
    (hb : contents[1]? = some b) :
    CountedUp contents (FileContents.writeAt contents 1 [nextDigit b]) where
  length := FileContents.length_writeAt hlength
  others := by
    intro i hi
    rcases Nat.lt_or_gt_of_ne hi with hlt | hgt
    · exact FileContents.getElem?_writeAt_of_lt hlt (by omega)
    · exact FileContents.getElem?_writeAt_of_le hgt
  second := by
    rw [hb]
    exact FileContents.getElem?_writeAt_add (i := 0) Nat.one_pos (by omega)

theorem getElem?_small_zero
    (hlength : 2 ≤ contents.length) :
    (FileContents.writeAt (FileContents.writeAt contents 0 digits) 1 [49])[0]? =
      some 49 := by
  have hsame : (FileContents.writeAt contents 0 digits).length = contents.length :=
    FileContents.length_writeAt hlength
  rw [FileContents.getElem?_writeAt_of_lt Nat.one_pos (by omega)]
  exact FileContents.getElem?_writeAt_add (i := 0) (by decide) (Nat.zero_le _)

theorem getElem?_small_one
    (hlength : 2 ≤ contents.length) :
    (FileContents.writeAt (FileContents.writeAt contents 0 digits) 1 [49])[1]? =
      some 49 := by
  have hsame : (FileContents.writeAt contents 0 digits).length = contents.length :=
    FileContents.length_writeAt hlength
  exact FileContents.getElem?_writeAt_add (i := 0) Nat.one_pos (by omega)

/-- In a file that begins with `10` these digits change nothing. -/
theorem writeAt_digits
    (hfirst : contents[0]? = some 49)
    (hsecond : contents[1]? = some 48) :
    FileContents.writeAt contents 0 digits = contents := by
  match contents with
  | [] =>
      cases hfirst
  | [_] =>
      cases hsecond
  | b :: d :: rest =>
      cases hfirst
      cases hsecond
      exact FileContents.writeAt_of_le (Nat.zero_le _) digits

/-- A run on a file of at least two bytes changes only the second one, to the next digit,
if and only if the size is at least two as an `int` or the file begins with `10`. -/
theorem counts_up_iff
    (contents : List UInt8)
    (size : Int)
    (c : UInt8)
    (hlength : 2 ≤ contents.length) :
    CountedUp contents (main contents size c).contents ↔
      2 ≤ toInt32 contents.length ∨
      (contents[0]? = some 49 ∧ contents[1]? = some 48) := by
  obtain ⟨b, hb⟩ : ∃ b, contents[1]? = some b :=
    ⟨_, List.getElem?_eq_getElem (by omega)⟩
  by_cases hlarge : 2 ≤ toInt32 contents.length
  · rw [main_of_large hlarge hb]
    exact iff_of_true (countedUp_writeAt hlength hb) (Or.inl hlarge)
  · rw [main_of_small (Int.not_le.mp hlarge)]
    constructor
    · intro h
      have hfirst := h.others 0 (by decide)
      have hsecond := h.second
      rw [getElem?_small_zero hlength] at hfirst
      rw [getElem?_small_one hlength, hb, Option.map_some, Option.some.injEq] at hsecond
      refine Or.inr ⟨hfirst.symm, ?_⟩
      rw [hb, nextDigit_eq_one_iff.mp hsecond.symm]
    · rintro (h | ⟨hfirst, hsecond⟩)
      · exact absurd h hlarge
      · have hone : nextDigit 48 = 49 := by decide
        rw [writeAt_digits hfirst hsecond, ← hone]
        exact countedUp_writeAt hlength hsecond

/-- A file of four bytes. -/
theorem counts_up_fourBytes :
    CountedUp [97, 57, 98, 99] (main [97, 57, 98, 99] 0 0).contents :=
  (counts_up_iff [97, 57, 98, 99] 0 0 (by decide)).mpr (Or.inl (by decide))

/-- In a file of `2 ^ 31` bytes `a` the first byte is overwritten. -/
theorem not_counts_up_largeFile :
    (List.replicate (2 ^ 31) (97 : UInt8)).length = 2 ^ 31 ∧
    ¬CountedUp (List.replicate (2 ^ 31) 97)
      (main (List.replicate (2 ^ 31) 97) 0 0).contents := by
  have hlength : (List.replicate (2 ^ 31) (97 : UInt8)).length = 2 ^ 31 :=
    List.length_replicate
  have hsmall : toInt32 ((List.replicate (2 ^ 31) (97 : UInt8)).length : Int) < 2 := by
    rw [hlength]
    decide
  refine ⟨hlength, fun h => ?_⟩
  have hfirst := h.others 0 (by decide)
  rw [main_of_small hsmall, getElem?_small_zero (by rw [hlength]; decide),
    List.getElem?_replicate, if_pos (by decide)] at hfirst
  exact absurd hfirst (by decide)

end Lseek
end Files
end OsSeminars
