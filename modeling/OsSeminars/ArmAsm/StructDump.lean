import OsSeminars.Foundation.Buffer
import OsSeminars.Foundation.StructField

/-!
# 05-arm-asm-stack/struct-alignment/dump-read

One program stores a struct of three fields in a file, and another one loads it. Without
the attribute `packed` the last field begins at a multiple of its size, and the two bytes
in front of it belong to no field.

The functions `dump` and `load` return `-1` when the file cannot be opened, and `0`
otherwise. What `fwrite`, `fread` and `fclose` return is not looked at.
-/

namespace OsSeminars
namespace ArmAsm
namespace StructDump

open Foundation

/-- The fields of `struct fheader`. -/
structure Header where
  magic : UInt32
  size : UInt16
  flags : UInt32
  deriving DecidableEq

/-- Where the fields are in the bytes of the struct. -/
structure Layout where
  magic : StructField
  size : StructField
  flags : StructField
  sizeof : Nat
  magic_width : magic.width = 4
  size_width : size.width = 2
  flags_width : flags.width = 4
  magic_before : magic.Before size
  size_before : size.Before flags
  flags_inside : flags.offset + flags.width ≤ sizeof

/-- `struct fheader`, which is packed. -/
def fheader : Layout where
  magic := ⟨0, 4⟩
  size := ⟨4, 2⟩
  flags := ⟨6, 4⟩
  sizeof := 10
  magic_width := rfl
  size_width := rfl
  flags_width := rfl
  magic_before := Nat.le_refl 4
  size_before := Nat.le_refl 6
  flags_inside := Nat.le_refl 10

/-- `struct fheader2`, whose last field is aligned. -/
def fheader2 : Layout where
  magic := ⟨0, 4⟩
  size := ⟨4, 2⟩
  flags := ⟨8, 4⟩
  sizeof := 12
  magic_width := rfl
  size_width := rfl
  flags_width := rfl
  magic_before := Nat.le_refl 4
  size_before := Nat.le_add_right 6 2
  flags_inside := Nat.le_refl 12

namespace Layout

variable (l : Layout)

/-- The bytes of a struct. -/
abbrev Struct : Type :=
  Buffer UInt8 l.sizeof

/-- The values of the fields. -/
def header
    (a : l.Struct) :
    Header where
  magic := UInt32.ofNat (l.magic.load a.contents)
  size := UInt16.ofNat (l.size.load a.contents)
  flags := UInt32.ofNat (l.flags.load a.contents)

/-- The byte belongs to a field. -/
def IsField
    (i : Nat) :
    Prop :=
  l.magic.Contains i ∨ l.size.Contains i ∨ l.flags.Contains i

theorem size_inside :
    l.size.offset + l.size.width ≤ l.sizeof := by
  have hbefore := l.size_before
  have hinside := l.flags_inside
  rw [StructField.Before] at hbefore
  omega

theorem magic_inside :
    l.magic.offset + l.magic.width ≤ l.sizeof := by
  have hbefore := l.magic_before
  have hinside := l.size_inside
  rw [StructField.Before] at hbefore
  omega

/-- An assignment to a field. -/
def setField
    {l : Layout}
    (a : l.Struct)
    (f : StructField)
    (hf : f.offset + f.width ≤ l.sizeof)
    (v : Nat) :
    l.Struct where
  contents := f.store a.contents v
  size_eq := by
    have ha := a.size_eq
    rw [StructField.length_store (by rwa [ha]), ha]

/-- `a.magic = magic_header; a.size = struct_size; a.flags = flags;` -/
def assign
    (a : l.Struct)
    (h : Header) :
    l.Struct :=
  setField
    (setField
      (setField a l.magic l.magic_inside h.magic.toNat)
      l.size l.size_inside h.size.toNat)
    l.flags l.flags_inside h.flags.toNat

section Fields

variable {l : Layout} {a b : l.Struct} {f g : StructField}

theorem load_setField_self
    (hf : f.offset + f.width ≤ l.sizeof)
    (v : Nat) :
    f.load (setField a f hf v).contents = v % 256 ^ f.width := by
  rw [← a.size_eq] at hf
  exact StructField.load_store_self hf v

theorem load_setField_of_apart
    (hf : f.offset + f.width ≤ l.sizeof)
    (v : Nat)
    (hapart : f.Before g ∨ g.Before f) :
    g.load (setField a f hf v).contents = g.load a.contents := by
  have hlength := a.size_eq
  exact StructField.load_store_of_apart (by rwa [hlength]) v hapart

theorem magic_before_flags :
    l.magic.Before l.flags := by
  have hmagic := l.magic_before
  have hsize := l.size_before
  rw [StructField.Before] at hmagic hsize ⊢
  omega

/-- The fields have the values assigned to them. -/
theorem header_assign
    (a : l.Struct)
    (h : Header) :
    l.header (l.assign a h) = h := by
  have hmagic : l.magic.load (l.assign a h).contents = h.magic.toNat := by
    rw [assign, load_setField_of_apart _ _ (Or.inr magic_before_flags),
      load_setField_of_apart _ _ (Or.inr l.magic_before), load_setField_self, l.magic_width]
    exact Nat.mod_eq_of_lt h.magic.toNat_lt
  have hsize : l.size.load (l.assign a h).contents = h.size.toNat := by
    rw [assign, load_setField_of_apart _ _ (Or.inr l.size_before), load_setField_self,
      l.size_width]
    exact Nat.mod_eq_of_lt h.size.toNat_lt
  have hflags : l.flags.load (l.assign a h).contents = h.flags.toNat := by
    rw [assign, load_setField_self, l.flags_width]
    exact Nat.mod_eq_of_lt h.flags.toNat_lt
  rw [header, hmagic, hsize, hflags, UInt32.ofNat_toNat, UInt16.ofNat_toNat,
    UInt32.ofNat_toNat]

theorem load_inj
    (hf : f.offset + f.width ≤ l.sizeof) :
    f.load a.contents = f.load b.contents ↔
      ∀ i, f.Contains i → a.contents[i]? = b.contents[i]? :=
  StructField.load_eq_iff (by rwa [a.size_eq]) (by rwa [b.size_eq])

theorem load_lt
    (a : l.Struct)
    (hf : f.offset + f.width ≤ l.sizeof) :
    f.load a.contents < 256 ^ f.width :=
  StructField.load_lt (by rwa [a.size_eq])

theorem ofNat32_inj
    {x y : Nat}
    (hx : x < 256 ^ 4)
    (hy : y < 256 ^ 4) :
    UInt32.ofNat x = UInt32.ofNat y ↔ x = y := by
  rw [← UInt32.toNat_inj, UInt32.toNat_ofNat', UInt32.toNat_ofNat',
    Nat.mod_eq_of_lt (b := 2 ^ 32) hx, Nat.mod_eq_of_lt (b := 2 ^ 32) hy]

theorem ofNat16_inj
    {x y : Nat}
    (hx : x < 256 ^ 2)
    (hy : y < 256 ^ 2) :
    UInt16.ofNat x = UInt16.ofNat y ↔ x = y := by
  rw [← UInt16.toNat_inj, UInt16.toNat_ofNat', UInt16.toNat_ofNat',
    Nat.mod_eq_of_lt (b := 2 ^ 16) hx, Nat.mod_eq_of_lt (b := 2 ^ 16) hy]

/-- Two structs have the same fields if and only if they have the same bytes there,
whatever the bytes between the fields are. -/
theorem header_eq_iff :
    l.header a = l.header b ↔
      ∀ i, l.IsField i → a.contents[i]? = b.contents[i]? := by
  have hmagic (c : l.Struct) : l.magic.load c.contents < 256 ^ 4 :=
    l.magic_width ▸ load_lt c l.magic_inside
  have hsize (c : l.Struct) : l.size.load c.contents < 256 ^ 2 :=
    l.size_width ▸ load_lt c l.size_inside
  have hflags (c : l.Struct) : l.flags.load c.contents < 256 ^ 4 :=
    l.flags_width ▸ load_lt c l.flags_inside
  rw [header, header, Header.mk.injEq, ofNat32_inj (hmagic a) (hmagic b),
    ofNat16_inj (hsize a) (hsize b), ofNat32_inj (hflags a) (hflags b),
    load_inj l.magic_inside, load_inj l.size_inside, load_inj l.flags_inside]
  simp only [IsField, or_imp, forall_and]

end Fields

end Layout

/-- What the environment does in `dump` or `load`: `fopen` succeeds or fails, and so many
bytes get through at most. -/
structure Calls where
  fopen : Bool
  transferred : Nat

/-- `dump` of a struct with these bytes; `fopen(fname, "w")` empties the file. -/
def dump
    (inf : List UInt8)
    (size : Nat)
    (calls : Calls)
    (file : Option (List UInt8)) :
    Int × Option (List UInt8) :=
  if calls.fopen then (0, some ((inf.take size).take calls.transferred)) else (-1, file)

/-- `load` of the whole struct. -/
def load
    {n : Nat}
    (inf : Buffer UInt8 n)
    (calls : Calls)
    (file : Option (List UInt8)) :
    Int × Buffer UInt8 n :=
  match file with
  | none => (-1, inf)
  | some contents =>
      if calls.fopen then (0, inf.overwrite ((contents.take n).take calls.transferred))
      else (-1, inf)

/-- The struct `a` with the given fields is dumped, and then loaded into `b`. When both
functions return `0`, the fields are the same. -/
def Reloads
    (l : Layout)
    (a b : l.Struct)
    (h : Header)
    (file : Option (List UInt8))
    (d r : Calls) :
    Prop :=
  let dumped := dump (l.assign a h).contents l.sizeof d file
  let loaded := load b r dumped.2
  dumped.1 = 0 → loaded.1 = 0 → l.header loaded.2 = h

section Reload

variable {l : Layout} {a b : l.Struct} {h : Header} {file : Option (List UInt8)}
variable {d r : Calls}

/-- The bytes that get through both times are the ones dumped, and the others are those
that the struct had before. -/
theorem getElem?_loaded
    (hd : d.fopen = true)
    (hr : r.fopen = true)
    (c : l.Struct)
    (i : Nat) :
    (load b r (dump c.contents l.sizeof d file).2).2.contents[i]? =
      if i < min d.transferred r.transferred then c.contents[i]? else b.contents[i]? := by
  have hb := b.size_eq
  have hc := c.size_eq
  have hchunk : (((c.contents.take l.sizeof).take d.transferred).take l.sizeof).take
      r.transferred = c.contents.take (min d.transferred r.transferred) := by
    rw [List.take_of_length_le hc.le, List.take_of_length_le (i := l.sizeof), List.take_take,
      Nat.min_comm]
    rw [List.length_take]
    omega
  rw [dump, if_pos hd, load, if_pos hr, hchunk, Buffer.overwrite_contents,
    List.take_of_length_le (by rw [List.length_take]; omega)]
  generalize min d.transferred r.transferred = k
  have hlength : (c.contents.take k).length = min k l.sizeof := by
    rw [List.length_take, hc]
  split_ifs with hi
  · rcases Nat.lt_or_ge i l.sizeof with hinside | hbehind
    · rw [List.getElem?_append_left (by omega), List.getElem?_take_of_lt hi]
    · rw [List.getElem?_eq_none (by rw [List.length_append, List.length_drop]; omega),
        List.getElem?_eq_none (by omega)]
  · rw [List.getElem?_append_right (by omega), List.getElem?_drop]
    congr 1
    omega

theorem reloads_iff_of_opened
    (hd : d.fopen = true)
    (hr : r.fopen = true) :
    Reloads l a b h file d r ↔
      ∀ i, l.IsField i → min d.transferred r.transferred ≤ i →
        b.contents[i]? = (l.assign a h).contents[i]? := by
  have hdumped : (dump (l.assign a h).contents l.sizeof d file).1 = 0 := by
    rw [dump, if_pos hd]
  have hloaded : (load b r (dump (l.assign a h).contents l.sizeof d file).2).1 = 0 := by
    rw [dump, if_pos hd, load, if_pos hr]
  have hheader : l.header (load b r (dump (l.assign a h).contents l.sizeof d file).2).2 = h ↔
      ∀ i, l.IsField i →
        (load b r (dump (l.assign a h).contents l.sizeof d file).2).2.contents[i]? =
          (l.assign a h).contents[i]? := by
    rw [← Layout.header_eq_iff, l.header_assign a h]
  constructor
  · intro hreload i hfield hi
    have hbyte := hheader.mp (hreload hdumped hloaded) i hfield
    rwa [getElem?_loaded hd hr, if_neg (Nat.not_lt_of_le hi)] at hbyte
  · intro hsame _ _
    refine hheader.mpr fun i hfield => ?_
    rw [getElem?_loaded hd hr]
    split_ifs with hi
    · rfl
    · exact hsame i hfield (Nat.le_of_not_lt hi)

/-- The struct that is loaded has the fields of the one dumped, if and only if a file could
not be opened, or each byte of a field that did not get through is in the struct already.
In particular this is so if all bytes get through. -/
theorem reloads_iff
    (l : Layout)
    (a b : l.Struct)
    (h : Header)
    (file : Option (List UInt8))
    (d r : Calls) :
    (Reloads l a b h file d r ↔
      d.fopen = false ∨ r.fopen = false ∨
        ∀ i, l.IsField i → min d.transferred r.transferred ≤ i →
          b.contents[i]? = (l.assign a h).contents[i]?) ∧
    (l.sizeof ≤ d.transferred → l.sizeof ≤ r.transferred → Reloads l a b h file d r) := by
  have hiff : Reloads l a b h file d r ↔
      d.fopen = false ∨ r.fopen = false ∨
        ∀ i, l.IsField i → min d.transferred r.transferred ≤ i →
          b.contents[i]? = (l.assign a h).contents[i]? := by
    cases hd : d.fopen with
    | false =>
        refine iff_of_true ?_ (Or.inl rfl)
        intro hdumped
        rw [dump, hd] at hdumped
        cases hdumped
    | true =>
        cases hr : r.fopen with
        | false =>
            refine iff_of_true ?_ (Or.inr (Or.inl rfl))
            intro _ hloaded
            simp [dump, load, hd, hr] at hloaded
        | true =>
            rw [reloads_iff_of_opened hd hr]
            simp only [Bool.true_eq_false, false_or]
  refine ⟨hiff, fun hwritten hread => hiff.mpr (Or.inr (Or.inr fun i _ hi => ?_))⟩
  rw [List.getElem?_eq_none (by rw [b.size_eq]; omega),
    List.getElem?_eq_none (by rw [(l.assign a h).size_eq]; omega)]

/-- The values that the program dumps. -/
def dumpedHeader : Header where
  magic := 0xDEADBEEF
  size := 1000
  flags := 0xFFFFFFFF

/-- A struct of zeros. -/
def zeros
    (l : Layout) :
    l.Struct where
  contents := List.replicate l.sizeof 0
  size_eq := List.length_replicate

theorem reloads_iff_wholeStruct :
    Reloads fheader2 (zeros fheader2) (zeros fheader2) dumpedHeader none ⟨true, 12⟩
      ⟨true, 12⟩ :=
  (reloads_iff fheader2 (zeros fheader2) (zeros fheader2) dumpedHeader none ⟨true, 12⟩
    ⟨true, 12⟩).2 (Nat.le_refl 12) (Nat.le_refl 12)

/-- When the disk is full after four bytes, both functions return `0`, and the size and
the flags are lost. -/
theorem not_reloads_fullDisk :
    ¬Reloads fheader (zeros fheader) (zeros fheader) dumpedHeader none ⟨true, 4⟩
      ⟨true, 10⟩ ∧
    ¬Reloads fheader2 (zeros fheader2) (zeros fheader2) dumpedHeader none ⟨true, 4⟩
      ⟨true, 12⟩ := by
  constructor
  · intro hreload
    exact absurd (hreload rfl rfl) (by decide)
  · intro hreload
    exact absurd (hreload rfl rfl) (by decide)

end Reload

end StructDump
end ArmAsm
end OsSeminars
