import Mathlib.Algebra.BigOperators.Group.List.Basic
import Mathlib.Algebra.Ring.Int.Defs
import Mathlib.Algebra.Ring.Nat

/-!
# Foundation: C integer conversions

Unsigned 64-bit values (`size_t`) are natural numbers below `sizeMod`, and
signed 32-bit values (`int`) are integers in the usual range. Arithmetic is
done in the mathematical integers and converted where the program stores the
result, which is what the modular conversions below describe.
-/

namespace OsSeminars
namespace Foundation

/-- The number of values of `size_t`. -/
def sizeMod : Nat := 2 ^ 64

/-- Largest value of `int`. -/
def intMax : Int := 2 ^ 31 - 1

/-- Conversion of an integer to `size_t`. -/
def toSizeT (x : Int) : Nat :=
  (x % sizeMod).toNat

/-- Conversion of an integer to `int`. -/
def toInt32 (x : Int) : Int :=
  x.bmod (2 ^ 32)

/-- Conversion of an integer to `int64_t`. -/
def toInt64 (x : Int) : Int :=
  x.bmod (2 ^ 64)

/-- Conversion of an integer to `int8_t`. -/
def toInt8 (x : Int) : Int :=
  x.bmod (2 ^ 8)

theorem toSizeT_lt
    (x : Int) :
    toSizeT x < sizeMod := by
  unfold toSizeT sizeMod
  omega

/-- `toSizeT` keeps the values of `size_t`. -/
theorem toSizeT_of_lt
    {n : Nat}
    (h : n < sizeMod) :
    toSizeT (n : Int) = n := by
  unfold toSizeT
  rw [Int.emod_eq_of_lt (by omega) (by omega)]
  simp

/-- Decrementing a positive `size_t` does not wrap. -/
theorem toSizeT_pred
    {n : Nat}
    (hpos : 0 < n)
    (h : n < sizeMod) :
    toSizeT ((n : Int) - 1) = n - 1 := by
  have hcast : (n : Int) - 1 = ((n - 1 : Nat) : Int) := by
    omega
  rw [hcast]
  exact toSizeT_of_lt (by omega)

/-- `toInt32` keeps the nonnegative values of `int`. -/
theorem toInt32_of_le
    {n : Nat}
    (h : (n : Int) ≤ intMax) :
    toInt32 (n : Int) = n := by
  unfold intMax at h
  unfold toInt32
  rw [Int.bmod_eq_of_le (by omega) (by omega)]

/-- `toInt64` keeps the nonnegative values of `int64_t`. -/
theorem toInt64_of_lt
    {n : Nat}
    (h : n < 2 ^ 63) :
    toInt64 (n : Int) = n := by
  unfold toInt64
  rw [Int.bmod_eq_of_le (by omega) (by omega)]

/-- A nonnegative integer never grows when it is converted to `int`. -/
theorem toInt32_le
    {x : Int}
    (h : 0 ≤ x) :
    toInt32 x ≤ x := by
  unfold toInt32
  rw [Int.bmod_def]
  split <;> omega

theorem le_toInt32
    (x : Int) :
    -2 ^ 31 ≤ toInt32 x := by
  unfold toInt32
  rw [Int.bmod_def]
  split <;> omega

/-- `toInt8` keeps exactly the values of `int8_t`. -/
theorem toInt8_eq_iff
    {x : Int} :
    toInt8 x = x ↔ -128 ≤ x ∧ x ≤ 127 := by
  unfold toInt8
  rw [Int.bmod_def]
  split <;> omega

theorem toInt8_neg_one :
    toInt8 (-1) = -1 :=
  toInt8_eq_iff.mpr ⟨by decide, by decide⟩

/-- Adding up modulo `M` in a loop gives the sum modulo `M`. -/
theorem foldl_add_mod
    {α : Type*}
    (M : Nat)
    (f : α → Nat)
    (l : List α)
    (r : Nat) :
    l.foldl (fun result x => (result + f x) % M) (r % M) =
      (r + (l.map f).sum) % M := by
  induction l generalizing r with
  | nil =>
      simp
  | cons x l ih =>
      rw [List.foldl_cons, Nat.mod_add_mod, ih (r + f x)]
      simp [Nat.add_assoc]

end Foundation
end OsSeminars
