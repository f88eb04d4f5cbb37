import Mathlib.Tactic.Common

/-!
# Foundation: the contents of a file

The contents of a file are a list of bytes. A write at an offset replaces the bytes that
are there, lengthens the file if it reaches beyond its end, and never shortens it. A
program that writes one byte after another from the beginning of a file has therefore,
at every moment, its bytes in front of what the file has held behind them.
-/

namespace OsSeminars
namespace Foundation
namespace FileContents

/-- Write bytes at an offset; a gap behind the end of the file is filled with zeros. -/
def writeAt
    (contents : List UInt8)
    (offset : Nat)
    (bytes : List UInt8) :
    List UInt8 :=
  contents.take offset ++ List.replicate (offset - contents.length) 0 ++ bytes ++
    contents.drop (offset + bytes.length)

/-- A text in front of what the contents have held behind its end. -/
def overlay
    (text contents : List UInt8) :
    List UInt8 :=
  text ++ contents.drop text.length

variable {contents old written bytes : List UInt8} {offset i : Nat}

theorem writeAt_of_le
    (h : offset ≤ contents.length)
    (bytes : List UInt8) :
    writeAt contents offset bytes =
      contents.take offset ++ bytes ++ contents.drop (offset + bytes.length) := by
  rw [writeAt, Nat.sub_eq_zero_of_le h, List.replicate_zero, List.append_nil]

theorem length_take_append_replicate
    (contents : List UInt8)
    (offset : Nat) :
    (contents.take offset ++ List.replicate (offset - contents.length) 0).length =
      offset := by
  rw [List.length_append, List.length_take, List.length_replicate]
  omega

/-- Behind the bytes written a file is as it was. -/
theorem getElem?_writeAt_of_le
    (h : offset + bytes.length ≤ i) :
    (writeAt contents offset bytes)[i]? = contents[i]? := by
  have hlength := length_take_append_replicate contents offset
  rw [writeAt, List.getElem?_append_right (by rw [List.length_append, hlength]; exact h),
    List.length_append, hlength, List.getElem?_drop]
  congr 1
  omega

/-- In front of the bytes written a file is as it was. -/
theorem getElem?_writeAt_of_lt
    (hi : i < offset)
    (hoffset : offset ≤ contents.length) :
    (writeAt contents offset bytes)[i]? = contents[i]? := by
  rw [writeAt_of_le hoffset, List.append_assoc,
    List.getElem?_append_left (by rw [List.length_take]; omega),
    List.getElem?_take_of_lt hi]

/-- The bytes written. -/
theorem getElem?_writeAt_add
    (hi : i < bytes.length)
    (hoffset : offset ≤ contents.length) :
    (writeAt contents offset bytes)[offset + i]? = bytes[i]? := by
  have hlength : (contents.take offset).length = offset := by
    rw [List.length_take]
    omega
  rw [writeAt_of_le hoffset, List.append_assoc,
    List.getElem?_append_right (by rw [hlength]; omega), hlength,
    List.getElem?_append_left (by omega)]
  congr 1
  omega

/-- A write inside of a file keeps its length. -/
theorem length_writeAt
    (h : offset + bytes.length ≤ contents.length) :
    (writeAt contents offset bytes).length = contents.length := by
  rw [writeAt_of_le (by omega), List.length_append, List.length_append, List.length_take,
    List.length_drop]
  omega

/-- A write behind what has been written before. -/
theorem writeAt_append
    (written old bytes : List UInt8) :
    writeAt (written ++ old.drop written.length) written.length bytes =
      (written ++ bytes) ++ old.drop (written ++ bytes).length := by
  rw [writeAt_of_le (by rw [List.length_append]; omega), List.take_left,
    List.length_append, List.drop_append, List.drop_of_length_le (by omega),
    List.nil_append, List.drop_drop]
  congr 2
  omega

/-- After a write the file reaches to the end of what was written at least. -/
theorem le_length_writeAt
    (contents : List UInt8)
    (offset : Nat)
    (bytes : List UInt8) :
    offset + bytes.length ≤ (writeAt contents offset bytes).length := by
  rw [writeAt, List.length_append, List.length_append, length_take_append_replicate]
  exact Nat.le_add_right _ _

/-- Two writes one behind the other are one write. -/
theorem writeAt_writeAt
    (contents : List UInt8)
    (offset : Nat)
    (written bytes : List UInt8) :
    writeAt (writeAt contents offset written) (offset + written.length) bytes =
      writeAt contents offset (written ++ bytes) := by
  have hfront :
      (contents.take offset ++ List.replicate (offset - contents.length) 0 ++
        written).length = offset + written.length := by
    rw [List.length_append, length_take_append_replicate]
  rw [writeAt_of_le (le_length_writeAt contents offset written), writeAt, writeAt,
    List.take_left' hfront, ← hfront, List.drop_append, hfront,
    List.drop_of_length_le (by omega), List.nil_append, List.drop_drop, List.length_append,
    List.append_assoc _ written bytes]
  congr 2
  omega

/-- A write at the beginning of a file. -/
theorem writeAt_zero
    (contents text : List UInt8) :
    writeAt contents 0 text = overlay text contents := by
  simp [writeAt, overlay]

/-- Nothing written inside of a file changes nothing. -/
theorem writeAt_nil
    (h : offset ≤ contents.length) :
    writeAt contents offset [] = contents := by
  simp [writeAt_of_le h]

/-- What is written over old contents is all of the file if and only if it reaches to
their end. -/
theorem append_drop_eq_iff :
    written ++ old.drop written.length = written ↔ old.length ≤ written.length := by
  rw [List.append_right_eq_self, List.drop_eq_nil_iff]

end FileContents
end Foundation
end OsSeminars
