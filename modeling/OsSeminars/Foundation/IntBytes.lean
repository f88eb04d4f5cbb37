import Mathlib.Algebra.Ring.Nat
import Mathlib.Tactic.Common

/-!
# Foundation: numbers as bytes

Numbers that programs exchange are sent as their bytes, the lowest byte first. For a
fixed count of bytes the two conversions are inverse to each other.
-/

namespace OsSeminars
namespace Foundation

/-- The `n` lowest bytes of a number, little endian. -/
def leBytes : Nat → Nat → List UInt8
  | 0, _ => []
  | n + 1, v => UInt8.ofNat v :: leBytes n (v / 256)

/-- The number that the bytes stand for. -/
def ofLeBytes : List UInt8 → Nat
  | [] => 0
  | b :: bytes => b.toNat + 256 * ofLeBytes bytes

/-- The four bytes of an `int`. -/
def intBytes
    (x : BitVec 32) :
    List UInt8 :=
  leBytes 4 x.toNat

/-- The `int` in four bytes. -/
def intOfBytes
    (bytes : List UInt8) :
    BitVec 32 :=
  BitVec.ofNat 32 (ofLeBytes bytes)

@[simp] theorem length_leBytes
    (n v : Nat) :
    (leBytes n v).length = n := by
  induction n generalizing v with
  | zero =>
      rfl
  | succ n ih =>
      rw [leBytes, List.length_cons, ih]

theorem ofLeBytes_leBytes
    (n v : Nat) :
    ofLeBytes (leBytes n v) = v % 256 ^ n := by
  induction n generalizing v with
  | zero =>
      rw [Nat.pow_zero, Nat.mod_one]
      rfl
  | succ n ih =>
      have hfirst : (UInt8.ofNat v).toNat = v % 256 := UInt8.toNat_ofNat'
      rw [leBytes, ofLeBytes, ih, hfirst, Nat.pow_succ, Nat.mul_comm (256 ^ n) 256,
        Nat.mod_mul]

theorem leBytes_ofLeBytes
    (bytes : List UInt8) :
    leBytes bytes.length (ofLeBytes bytes) = bytes := by
  induction bytes with
  | nil =>
      rfl
  | cons b bytes ih =>
      have hb := b.toNat_lt
      have hrest : (b.toNat + 256 * ofLeBytes bytes) / 256 = ofLeBytes bytes := by
        omega
      have hfirst : UInt8.ofNat (b.toNat + 256 * ofLeBytes bytes) = b := by
        rw [← UInt8.toNat_inj, UInt8.toNat_ofNat']
        omega
      rw [List.length_cons, leBytes, ofLeBytes, hrest, hfirst, ih]

theorem ofLeBytes_lt
    (bytes : List UInt8) :
    ofLeBytes bytes < 256 ^ bytes.length := by
  induction bytes with
  | nil =>
      decide
  | cons b bytes ih =>
      have hb := b.toNat_lt
      rw [ofLeBytes, List.length_cons, Nat.pow_succ]
      omega

@[simp] theorem length_intBytes
    (x : BitVec 32) :
    (intBytes x).length = 4 :=
  length_leBytes 4 x.toNat

@[simp] theorem intOfBytes_intBytes
    (x : BitVec 32) :
    intOfBytes (intBytes x) = x := by
  rw [intOfBytes, intBytes, ofLeBytes_leBytes, ← BitVec.toNat_inj, BitVec.toNat_ofNat]
  have hx := x.isLt
  omega

/-- Four bytes are the bytes of the `int` in them. -/
theorem intBytes_intOfBytes
    {bytes : List UInt8}
    (h : bytes.length = 4) :
    intBytes (intOfBytes bytes) = bytes := by
  have hlt := ofLeBytes_lt bytes
  rw [h] at hlt
  have hvalue : (intOfBytes bytes).toNat = ofLeBytes bytes := by
    rw [intOfBytes, BitVec.toNat_ofNat]
    exact Nat.mod_eq_of_lt hlt
  rw [intBytes, hvalue, ← h, leBytes_ofLeBytes]

end Foundation
end OsSeminars
