import OsSeminars.Foundation.CarryChain

/-!
# 03-binary-representation/alu-sum.c

The program adds two numbers of the type `ITYPE` bit by bit, as the adder of a
processor does. `ITYPE` is a macro of the build: an unsigned type without padding
bits, here of `w` bits. `byte` is `uint8_t`, and `int` has 32 bits.

The loop keeps one equation: the bits produced so far and, at the weight of the
next bit, what is left of both operands and the carry.
-/

namespace OsSeminars
namespace BinaryRepresentation
namespace AluSum

open Foundation

/-- `bitSum`: the returned bit and the new value of `*carry`. -/
def bitSum
    (w : Nat)
    (a b : BitVec 8)
    (carry : BitVec 32) :
    BitVec w × BitVec 32 :=
  let oldCarry := carry
  let a := a.setWidth 32
  let b := b.setWidth 32
  let carry := (a &&& b) ||| ((a ^^^ b) &&& carry)
  ((a ^^^ b ^^^ oldCarry).signExtend w, carry)

/-- The variables of `sum`; `res` and `CF` are the integers its pointers name. -/
structure Variables (w : Nat) where
  first : BitVec w
  second : BitVec w
  res : BitVec w
  CF : BitVec 32

/-- `sizeof(ITYPE) * CHAR_BIT`. -/
def lenBits
    (w : Nat) :
    Nat :=
  w

/-- The body of the loop. -/
def sumBody
    {w : Nat}
    (s : Variables w)
    (i : Nat) :
    Variables w :=
  let firstBit := (s.first &&& 1#w).setWidth 8
  let secondBit := (s.second &&& 1#w).setWidth 8
  let bit := bitSum w firstBit secondBit s.CF
  { first := s.first >>> 1
    second := s.second >>> 1
    res := s.res ||| bit.1 <<< i
    CF := bit.2 }

/-- `sum`: the values of `*res` and `*CF` on return. -/
def sum
    {w : Nat}
    (first second : BitVec w)
    (CF : BitVec 32) :
    BitVec w × BitVec 32 :=
  let s := (List.range (lenBits w)).foldl sumBody
    { first := first, second := second, res := 0#w, CF := CF }
  (s.res, s.CF)

/-- Add numbers of several limbs, least significant first, with `CF` threaded from
call to call. -/
def sumLimbs
    {w : Nat}
    (limbs : List (BitVec w × BitVec w))
    (CF : BitVec 32) :
    List (BitVec w) × BitVec 32 :=
  CarryChain.chain sum limbs CF

section FullAdder

theorem eq_zero_or_one
    {n : Nat}
    {x : BitVec n}
    (h : x.toNat ≤ 1) :
    x = 0#n ∨ x = 1#n := by
  rcases Nat.le_one_iff_eq_zero_or_eq_one.mp h with h | h
  · exact Or.inl (BitVec.eq_of_toNat_eq (by simp [h]))
  · right
    have hlt := x.isLt
    refine BitVec.eq_of_toNat_eq ?_
    rw [BitVec.toNat_ofNat, Nat.mod_eq_of_lt (by omega), h]

/-- The lowest bit of a number, as `byte`. -/
theorem toNat_lowBit
    {w : Nat}
    (hw : 0 < w)
    (x : BitVec w) :
    ((x &&& 1#w).setWidth 8).toNat = x.toNat % 2 := by
  have hone : (1#w).toNat = 1 := by
    rw [BitVec.toNat_ofNat, Nat.mod_eq_of_lt (Nat.one_lt_two_pow (by omega))]
  rw [BitVec.toNat_setWidth, BitVec.toNat_and, hone, Nat.and_one_is_mod]
  omega

theorem signExtend_bit
    {w : Nat}
    (hw : 0 < w)
    {x : BitVec 32}
    (hx : x.toNat ≤ 1) :
    (x.signExtend w).toNat = x.toNat := by
  have hpow : 2 ≤ 2 ^ w := Nat.le_self_pow (by omega) 2
  rcases eq_zero_or_one hx with rfl | rfl
  · have hzero : (0#32).signExtend w = 0#w := by
      simp [BitVec.signExtend]
    rw [hzero, BitVec.toNat_zero, BitVec.toNat_zero]
  · have hone : (1#32).signExtend w = 1#w := by
      simp [BitVec.signExtend]
    rw [hone, BitVec.toNat_ofNat, Nat.mod_eq_of_lt (by omega)]
    rfl

/-- `bitSum` is a full adder on bits. -/
theorem bitSum_adds
    {w : Nat}
    (hw : 0 < w)
    {a b : BitVec 8}
    {c : BitVec 32}
    (ha : a.toNat ≤ 1)
    (hb : b.toNat ≤ 1)
    (hc : c.toNat ≤ 1) :
    (bitSum w a b c).1.toNat + 2 * (bitSum w a b c).2.toNat =
        a.toNat + b.toNat + c.toNat ∧
      (bitSum w a b c).1.toNat ≤ 1 ∧
      (bitSum w a b c).2.toNat ≤ 1 := by
  have hbit : (a.setWidth 32 ^^^ b.setWidth 32 ^^^ c).toNat ≤ 1 := by
    rcases eq_zero_or_one ha with rfl | rfl <;>
      rcases eq_zero_or_one hb with rfl | rfl <;>
        rcases eq_zero_or_one hc with rfl | rfl <;> decide
  simp only [bitSum, signExtend_bit hw hbit]
  rcases eq_zero_or_one ha with rfl | rfl <;>
    rcases eq_zero_or_one hb with rfl | rfl <;>
      rcases eq_zero_or_one hc with rfl | rfl <;> decide

end FullAdder

section Loop

variable {w : Nat}

/-- After `i` bits: what the loop has produced and what it has left. -/
structure LoopInv
    (total i : Nat)
    (s : Variables w) : Prop where
  sum : s.res.toNat + 2 ^ i * (s.first.toNat + s.second.toNat + s.CF.toNat) = total
  res_lt : s.res.toNat < 2 ^ i
  first_lt : s.first.toNat < 2 ^ (w - i)
  second_lt : s.second.toNat < 2 ^ (w - i)
  carry_le : s.CF.toNat ≤ 1

/-- Setting bit `i` above the bits produced so far. -/
theorem toNat_or_shift
    {i : Nat}
    (hi : i < w)
    {r bit : BitVec w}
    (hr : r.toNat < 2 ^ i)
    (hbit : bit.toNat ≤ 1) :
    (r ||| bit <<< i).toNat = r.toNat + 2 ^ i * bit.toNat := by
  have hpow : 2 ^ i < 2 ^ w := Nat.pow_lt_pow_right (by omega) hi
  have hfits : bit.toNat * 2 ^ i < 2 ^ w :=
    lt_of_le_of_lt (Nat.mul_le_mul_right _ hbit) (by omega)
  rw [BitVec.toNat_or, BitVec.toNat_shiftLeft, Nat.shiftLeft_eq, Nat.mod_eq_of_lt hfits,
    Nat.or_comm, Nat.mul_comm, ← Nat.two_pow_add_eq_or_of_lt hr, Nat.add_comm]

/-- One pass of the body moves the lowest bits of the operands into the result. -/
theorem loopInv_sumBody
    {total i : Nat}
    {s : Variables w}
    (hi : i < w)
    (h : LoopInv total i s) :
    LoopInv total (i + 1) (sumBody s i) := by
  have hw : 0 < w := by
    omega
  have hfirst := toNat_lowBit hw s.first
  have hsecond := toNat_lowBit hw s.second
  obtain ⟨hadd, hbit, hcarry⟩ := bitSum_adds (c := s.CF) hw
    (by omega : ((s.first &&& 1#w).setWidth 8).toNat ≤ 1)
    (by omega : ((s.second &&& 1#w).setWidth 8).toNat ≤ 1) h.carry_le
  have hpow : 2 ^ (w - i) = 2 * 2 ^ (w - (i + 1)) := by
    rw [← Nat.pow_succ']
    congr 1
    omega
  have hhalf : ∀ x : BitVec w, (x >>> 1).toNat = x.toNat / 2 := fun x => by
    rw [BitVec.toNat_ushiftRight, Nat.shiftRight_eq_div_pow, Nat.pow_one]
  have hres := toNat_or_shift hi h.res_lt hbit
  have hfirst_lt := h.first_lt
  have hsecond_lt := h.second_lt
  have hres_lt := h.res_lt
  constructor
  · -- the operands lose a bit, the weight of the rest doubles
    have hsum := h.sum
    simp only [sumBody, hhalf, hres]
    rw [← hsum, Nat.pow_succ, Nat.mul_assoc, Nat.add_assoc, ← Nat.mul_add]
    congr 2
    omega
  · simp only [sumBody, hres]
    have hle : 2 ^ i * _ ≤ 2 ^ i * 1 := Nat.mul_le_mul_left _ hbit
    rw [Nat.pow_succ]
    omega
  · simp only [sumBody, hhalf]
    omega
  · simp only [sumBody, hhalf]
    omega
  · exact hcarry

/-- The loop invariant after `n` passes. -/
theorem loopInv_foldl
    {total : Nat}
    {s : Variables w}
    (h : LoopInv total 0 s)
    {n : Nat}
    (hn : n ≤ w) :
    LoopInv total n ((List.range n).foldl sumBody s) := by
  induction n with
  | zero =>
      exact h
  | succ n ih =>
      rw [List.range_succ, List.foldl_append]
      exact loopInv_sumBody (by omega) (ih (by omega))

/-- `sum` is an exact digit adder in base `2 ^ w`. -/
theorem sum_exact :
    CarryChain.Exact (2 ^ w) BitVec.toNat BitVec.toNat (sum (w := w)) := by
  have hrun : ∀ (x y : BitVec w) (c : BitVec 32), c.toNat ≤ 1 →
      LoopInv (x.toNat + y.toNat + c.toNat) w
        ((List.range (lenBits w)).foldl sumBody
          { first := x, second := y, res := 0#w, CF := c }) :=
    fun x y c hc => loopInv_foldl
      { sum := by simp
        res_lt := by simp
        first_lt := x.isLt
        second_lt := y.isLt
        carry_le := hc } le_rfl
  constructor
  · intro x y c hc
    have h := hrun x y c hc
    have hfirst := h.first_lt
    have hsecond := h.second_lt
    rw [Nat.sub_self, Nat.pow_zero] at hfirst hsecond
    have hsum := h.sum
    rw [Nat.lt_one_iff.mp hfirst, Nat.lt_one_iff.mp hsecond, Nat.zero_add] at hsum
    exact hsum
  · intro x y c hc
    exact (hrun x y c hc).carry_le

end Loop

/--
`sum` adds exactly, and calls of `sum` on the limbs of two numbers add the
numbers exactly.
-/
theorem sum_adds
    {w : Nat}
    (CF : BitVec 32)
    (hCF : CF.toNat ≤ 1) :
    (∀ first second : BitVec w,
      (sum first second CF).1.toNat + 2 ^ w * (sum first second CF).2.toNat =
          first.toNat + second.toNat + CF.toNat ∧
        (sum first second CF).2.toNat ≤ 1) ∧
    (∀ limbs : List (BitVec w × BitVec w),
      (sumLimbs limbs CF).1.length = limbs.length ∧
        Nat.ofDigits (2 ^ w) ((sumLimbs limbs CF).1.map BitVec.toNat) +
            2 ^ (w * limbs.length) * (sumLimbs limbs CF).2.toNat =
          Nat.ofDigits (2 ^ w) (limbs.map (fun p => p.1.toNat)) +
            Nat.ofDigits (2 ^ w) (limbs.map (fun p => p.2.toNat)) + CF.toNat ∧
        (sumLimbs limbs CF).2.toNat ≤ 1) := by
  constructor
  · intro first second
    exact ⟨sum_exact.sum first second CF hCF, sum_exact.carry_le first second CF hCF⟩
  · intro limbs
    refine ⟨CarryChain.length_chain limbs CF, ?_, CarryChain.chain_carry_le sum_exact limbs hCF⟩
    rw [Nat.pow_mul]
    exact CarryChain.chain_sum sum_exact limbs hCF

/-- Adding 255 and 1 with a carry in `uint8_t`. -/
theorem sum_adds_uint8 :
    (sum 255#8 1#8 1#32).1.toNat + 2 ^ 8 * (sum 255#8 1#8 1#32).2.toNat = 255 + 1 + 1 :=
  ((sum_adds 1#32 (by decide)).1 255#8 1#8).1

end AluSum
end BinaryRepresentation
end OsSeminars
