import OsSeminars.Foundation.ByteMemory
import OsSeminars.Foundation.Numeral

/-!
# Foundation: format strings

A format string is in the memory, up to its first zero. `%d` takes the next argument and
writes it in base ten; other directives are not described here, and other characters are
copied.
-/

namespace OsSeminars
namespace Foundation
namespace FormatText

/-- The bytes from an address on are a string with its zero. -/
def StringAt
    (m : ByteMemory 64)
    (a : BitVec 64) :
    List UInt8 → Prop
  | [] => m a = 0
  | c :: text => m a = c ∧ c ≠ 0 ∧ StringAt m (a + 1) text

instance decidableStringAt
    (m : ByteMemory 64) :
    (a : BitVec 64) →
    (text : List UInt8) →
    Decidable (StringAt m a text)
  | a, [] => inferInstanceAs (Decidable (m a = 0))
  | a, c :: text =>
      have := decidableStringAt m (a + 1) text
      inferInstanceAs (Decidable (m a = c ∧ c ≠ 0 ∧ StringAt m (a + 1) text))

/-- Read bytes up to a zero, at most as many as there is fuel. -/
def readString
    (m : ByteMemory 64)
    (a : BitVec 64) :
    Nat → List UInt8
  | 0 => []
  | fuel + 1 => if m a = 0 then [] else m a :: readString m (a + 1) fuel

/-- What `%d` writes. -/
def decimalInt
    (n : Int) :
    List UInt8 :=
  if n < 0 then 45 :: Numeral.decimal n.natAbs else Numeral.decimal n.natAbs

/-- What `printf` writes for a format, with the arguments from number `k` on. -/
def formatted
    (arg : Nat → Int) :
    List UInt8 → Nat → Option (List UInt8)
  | [], _ => some []
  | 37 :: 100 :: format, k =>
      (formatted arg format (k + 1)).map fun text => decimalInt (arg k) ++ text
  | c :: format, k =>
      if c = 37 then none else (formatted arg format k).map fun text => c :: text

/-- The number of arguments that a format takes at most. -/
def directives
    (format : List UInt8) :
    Nat :=
  format.count 37

section Strings

variable {m m' : ByteMemory 64} {a : BitVec 64} {text : List UInt8}

theorem StringAt.congr
    (h : StringAt m a text)
    (hsame : ∀ b, InRange a (text.length + 1) b → m b = m' b) :
    StringAt m' a text := by
  induction text generalizing a with
  | nil =>
      have hhead : InRange a 1 a := by
        simp [InRange]
      rw [StringAt, ← hsame a hhead]
      exact h
  | cons c text ih =>
      obtain ⟨hc, hne, hrest⟩ := h
      have hhead : InRange a ((c :: text).length + 1) a := by
        simp [InRange]
      refine ⟨(hsame a hhead).symm.trans hc, hne, ih hrest fun b hb => hsame b ?_⟩
      exact inRange_of_part (i := 1) hb (by rw [List.length_cons]; omega)

theorem StringAt.readString_eq
    (h : StringAt m a text)
    {fuel : Nat}
    (hfuel : text.length < fuel) :
    readString m a fuel = text := by
  induction text generalizing a fuel with
  | nil =>
      cases fuel with
      | zero =>
          cases hfuel
      | succ fuel =>
          exact if_pos h
  | cons c text ih =>
      obtain ⟨hc, hne, hrest⟩ := h
      cases fuel with
      | zero =>
          cases hfuel
      | succ fuel =>
          rw [readString, hc, if_neg hne, ih hrest (Nat.lt_of_succ_lt_succ hfuel)]

end Strings

section Arguments

variable {arg arg' : Nat → Int} {format : List UInt8}

/-- Only the arguments that the directives take matter. -/
theorem formatted_congr
    (k : Nat)
    (h : ∀ j, k ≤ j → j < k + directives format → arg j = arg' j) :
    formatted arg format k = formatted arg' format k := by
  fun_induction formatted arg format k with
  | case1 _ =>
      rfl
  | case2 format k ih =>
      have hcount : directives (37 :: 100 :: format) = directives format + 1 := by
        simp [directives]
      rw [hcount] at h
      rw [formatted, h k le_rfl (by omega), ih fun j hj hlt => h j (by omega) (by omega)]
  | case3 =>
      simp [formatted]
  | case4 c format k hnot hne ih =>
      have hcount : directives (c :: format) = directives format := by
        simp [directives, hne]
      rw [hcount] at h
      rw [formatted, if_neg hne, ih h]
      exact hnot

end Arguments

end FormatText
end Foundation
end OsSeminars
