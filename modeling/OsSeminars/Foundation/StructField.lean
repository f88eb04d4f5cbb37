import OsSeminars.Foundation.FileContents
import OsSeminars.Foundation.IntBytes

/-!
# Foundation: the fields of a struct

A field is a number in some of the bytes of a struct, the lowest byte first. A store to a
field changes its bytes only. So two structs have the same number in a field if and only
if they have the same bytes there, whatever stands in the bytes between the fields.
-/

namespace OsSeminars
namespace Foundation

/-- The place of a field in its struct. -/
structure StructField where
  offset : Nat
  width : Nat
  deriving DecidableEq

namespace StructField

/-- The bytes of the field. -/
def Contains
    (f : StructField)
    (i : Nat) :
    Prop :=
  f.offset ≤ i ∧ i < f.offset + f.width

instance
    (f : StructField)
    (i : Nat) :
    Decidable (f.Contains i) :=
  inferInstanceAs (Decidable (_ ∧ _))

/-- The field ends where the other one begins, or in front of it. -/
def Before
    (f g : StructField) :
    Prop :=
  f.offset + f.width ≤ g.offset

def slice
    (f : StructField)
    (bytes : List UInt8) :
    List UInt8 :=
  (bytes.drop f.offset).take f.width

def load
    (f : StructField)
    (bytes : List UInt8) :
    Nat :=
  ofLeBytes (f.slice bytes)

def store
    (f : StructField)
    (bytes : List UInt8)
    (v : Nat) :
    List UInt8 :=
  FileContents.writeAt bytes f.offset (leBytes f.width v)

variable {f g : StructField} {bytes bytes' : List UInt8} {i : Nat}

theorem length_slice
    (h : f.offset + f.width ≤ bytes.length) :
    (f.slice bytes).length = f.width := by
  rw [slice, List.length_take, List.length_drop]
  omega

theorem length_store
    (h : f.offset + f.width ≤ bytes.length)
    (v : Nat) :
    (f.store bytes v).length = bytes.length := by
  rw [← length_leBytes f.width v] at h
  exact FileContents.length_writeAt h

theorem getElem?_slice
    (i : Nat) :
    (f.slice bytes)[i]? = if i < f.width then bytes[f.offset + i]? else none := by
  rw [slice, List.getElem?_take]
  split_ifs
  · rw [List.getElem?_drop]
  · rfl

/-- Two structs have the same bytes of a field. -/
theorem slice_eq_iff :
    f.slice bytes = f.slice bytes' ↔ ∀ i, f.Contains i → bytes[i]? = bytes'[i]? := by
  constructor
  · intro h i hi
    have hbyte := congrArg (fun l => l[i - f.offset]?) h
    obtain ⟨hle, hlt⟩ := hi
    simp only [getElem?_slice] at hbyte
    have hinside : i - f.offset < f.width := by omega
    rwa [if_pos hinside, if_pos hinside, Nat.add_sub_cancel' hle] at hbyte
  · intro h
    refine List.ext_getElem? fun i => ?_
    rw [getElem?_slice, getElem?_slice]
    split_ifs with hi
    · exact h _ ⟨Nat.le_add_right _ _, Nat.add_lt_add_left hi _⟩
    · rfl

theorem load_lt
    (h : f.offset + f.width ≤ bytes.length) :
    f.load bytes < 256 ^ f.width := by
  have hlt := ofLeBytes_lt (f.slice bytes)
  rwa [length_slice h] at hlt

/-- Equal numbers have equal bytes. -/
theorem load_eq_iff
    (h : f.offset + f.width ≤ bytes.length)
    (h' : f.offset + f.width ≤ bytes'.length) :
    f.load bytes = f.load bytes' ↔ ∀ i, f.Contains i → bytes[i]? = bytes'[i]? := by
  rw [← slice_eq_iff]
  constructor
  · intro hload
    have hbytes := congrArg (leBytes f.width) hload
    rw [load, load] at hbytes
    have hleft := leBytes_ofLeBytes (f.slice bytes)
    have hright := leBytes_ofLeBytes (f.slice bytes')
    rw [length_slice h] at hleft
    rw [length_slice h'] at hright
    rwa [hleft, hright] at hbytes
  · intro hslice
    rw [load, load, hslice]

/-- A store changes the bytes of its field only. -/
theorem getElem?_store_of_not
    (h : f.offset + f.width ≤ bytes.length)
    (v : Nat)
    (hi : ¬f.Contains i) :
    (f.store bytes v)[i]? = bytes[i]? := by
  rcases Nat.lt_or_ge i f.offset with hbefore | hle
  · exact FileContents.getElem?_writeAt_of_lt hbefore (by omega)
  · have hbehind : f.offset + f.width ≤ i := Nat.le_of_not_lt fun hlt => hi ⟨hle, hlt⟩
    rw [← length_leBytes f.width v] at hbehind
    exact FileContents.getElem?_writeAt_of_le hbehind

theorem load_store_self
    (h : f.offset + f.width ≤ bytes.length)
    (v : Nat) :
    f.load (f.store bytes v) = v % 256 ^ f.width := by
  have hslice : f.slice (f.store bytes v) = leBytes f.width v := by
    refine List.ext_getElem? fun i => ?_
    rw [getElem?_slice]
    split_ifs with hi
    · rw [← length_leBytes f.width v] at hi
      exact FileContents.getElem?_writeAt_add hi (by omega)
    · rw [List.getElem?_eq_none]
      rw [length_leBytes]
      omega
  rw [load, hslice, ofLeBytes_leBytes]

/-- A store does not change a field that is apart. -/
theorem load_store_of_apart
    (h : f.offset + f.width ≤ bytes.length)
    (v : Nat)
    (hapart : f.Before g ∨ g.Before f) :
    g.load (f.store bytes v) = g.load bytes := by
  rw [load, load, slice_eq_iff.mpr fun i hi => ?_]
  refine getElem?_store_of_not h v fun hcontains => ?_
  simp only [Contains, Before] at hi hcontains hapart
  omega

end StructField

end Foundation
end OsSeminars
