import Mathlib.Data.BitVec
import Mathlib.Tactic.Common

/-!
# Foundation: registers, flags and conditions of x86-64

The flags that conditional jumps read are the zero, the sign and the overflow
flag. After a comparison they say how its operands are ordered, which is what the
jumps are used for.
-/

namespace OsSeminars
namespace Foundation
namespace X64

/-- The general-purpose registers. -/
inductive Reg where
  | rax | rbx | rcx | rdx | rsi | rdi | rbp | rsp
  | r8 | r9 | r10 | r11 | r12 | r13 | r14 | r15
deriving DecidableEq

abbrev Registers : Type :=
  Reg → BitVec 64

structure Flags where
  zero : Bool
  sign : Bool
  overflow : Bool
deriving DecidableEq

variable {w : Nat}

/-- The flags of an addition. -/
def addFlags
    (a b : BitVec w) :
    Flags where
  zero := decide (a + b = 0#w)
  sign := (a + b).msb
  overflow := BitVec.saddOverflow a b

/-- The flags of a subtraction, also of a comparison. -/
def subFlags
    (a b : BitVec w) :
    Flags where
  zero := decide (a - b = 0#w)
  sign := (a - b).msb
  overflow := BitVec.ssubOverflow a b

/-- The conditions of the jumps `jle`, `jz` and `jnz`. -/
inductive Cond where
  | le
  | zero
  | notZero
deriving DecidableEq

def Cond.holds :
    Cond → Flags → Bool
  | .le, f => f.zero || (f.sign != f.overflow)
  | .zero, f => f.zero
  | .notZero, f => !f.zero

section Comparisons

theorem sub_eq_zero_iff
    {a b : BitVec w} :
    a - b = 0#w ↔ a = b := by
  constructor
  · intro h
    have hadd := congrArg (· + b) h
    simpa [BitVec.sub_add_cancel] using hadd
  · rintro rfl
    exact BitVec.sub_self _

theorem zero_holds_subFlags
    (a b : BitVec w) :
    Cond.zero.holds (subFlags a b) = decide (a = b) := by
  simp only [Cond.holds, subFlags, sub_eq_zero_iff]

theorem notZero_holds_subFlags
    (a b : BitVec w) :
    Cond.notZero.holds (subFlags a b) = !decide (a = b) := by
  simp only [Cond.holds, subFlags, sub_eq_zero_iff]

/-- The sign of a difference is wrong exactly when the subtraction overflows. -/
theorem sign_subFlags
    (a b : BitVec w) :
    ((subFlags a b).sign != (subFlags a b).overflow) = decide (a.toInt < b.toInt) := by
  have ha := BitVec.msb_eq_toInt (x := a)
  have hb := BitVec.msb_eq_toInt (x := b)
  simp only [subFlags]
  cases hover : BitVec.ssubOverflow a b with
  | false =>
      have hexact : (a - b).toInt = a.toInt - b.toInt :=
        BitVec.toInt_sub_of_not_ssubOverflow (by simp [hover])
      rw [BitVec.msb_eq_toInt, hexact, Bool.bne_false, decide_eq_decide]
      omega
  | true =>
      -- the operands have different signs, and the difference has the wrong one
      have hsigns := BitVec.ssubOverflow_eq a b
      rw [hover] at hsigns
      cases hsign : a.msb with
      | false =>
          have hd : (a - b).msb = true ∧ b.msb = true := by
            simpa [hsign, and_comm] using hsigns.symm
          have hapos : ¬ a.toInt < 0 := of_decide_eq_false (ha.symm.trans hsign)
          have hbneg : b.toInt < 0 := of_decide_eq_true (hb.symm.trans hd.2)
          rw [hd.1, bne_self_eq_false, Bool.false_eq, decide_eq_false_iff_not]
          omega
      | true =>
          have hd : (a - b).msb = false ∧ b.msb = false := by
            simpa [hsign, and_comm] using hsigns.symm
          have haneg : a.toInt < 0 := of_decide_eq_true (ha.symm.trans hsign)
          have hbpos : ¬ b.toInt < 0 := of_decide_eq_false (hb.symm.trans hd.2)
          rw [hd.1, Bool.false_bne, Bool.true_eq, decide_eq_true_eq]
          omega

/-- After a comparison `jle` jumps if the first operand is not greater, both signed. -/
theorem le_holds_subFlags
    (a b : BitVec w) :
    Cond.le.holds (subFlags a b) = decide (a.toInt ≤ b.toInt) := by
  have hzero : (subFlags a b).zero = decide (a.toInt = b.toInt) := by
    simp only [subFlags, sub_eq_zero_iff, BitVec.toInt_inj]
  rw [Cond.holds, sign_subFlags, hzero, Bool.eq_iff_iff]
  simp only [Bool.or_eq_true, decide_eq_true_eq]
  omega

end Comparisons

end X64
end Foundation
end OsSeminars
