import OsSeminars.Foundation.Memory
import Mathlib.Data.Fin.VecNotation

/-!
# `compiler.c`: the scalar and the SIMD sum of four words

`sum0` is the loop over four array elements, `sum3` the same sum as one
`_mm_add_epi32` on two 128-bit operands. A memory holds 32-bit words and the
pointers are word addresses; additions are modulo `2 ^ 32`.

The loop interleaves its loads and stores, so the result block may overwrite an
operand before it is read. Both functions leave the same memory for every memory
exactly when the result block starts inside neither operand behind its first
word, in particular for all 16-byte aligned pointers.
-/

namespace OsSeminars
namespace AvxX86
namespace Compiler

open Foundation

/-- An `int`. -/
abbrev Word : Type :=
  BitVec 32

/-- The loop `c[i] = a[i] + b[i]` for `i` from `0` to `3`. -/
def sum0
    (a b c : Nat)
    (m : Memory Word) :
    Memory Word :=
  (List.range 4).foldl
    (fun m i => m.store (c + i) (m (a + i) + m (b + i))) m

/-- A 128-bit register with four `int` lanes. -/
abbrev M128i : Type :=
  Vector Word 4

/-- `*(__m128i*)p` as an operand. -/
def loadM128i
    (m : Memory Word)
    (p : Nat) :
    M128i :=
  Vector.ofFn (fun i : Fin 4 => m (p + i))

/-- `*(__m128i*)p` as the target of an assignment. -/
def storeM128i
    (m : Memory Word)
    (p : Nat)
    (v : M128i) :
    Memory Word :=
  m.storeBlock p v.toList

/-- `_mm_add_epi32`: four independent additions. -/
def mmAddEpi32
    (x y : M128i) :
    M128i :=
  Vector.zipWith (· + ·) x y

/-- Both operands are loaded before the result is stored. -/
def sum3
    (a b c : Nat)
    (m : Memory Word) :
    Memory Word :=
  storeM128i m c (mmAddEpi32 (loadM128i m a) (loadM128i m b))

/-- A word address that is a multiple of 16 bytes. -/
def Aligned16
    (p : Nat) :
    Prop :=
  4 * p % 16 = 0

section Blocks

variable (a b c : Nat) (m : Memory Word)

theorem sum0_eq_combineForward :
    sum0 a b c m = Memory.combineForward (· + ·) a b c 4 m :=
  rfl

theorem sum3_eq_combineBlock :
    sum3 a b c m = Memory.combineBlock (· + ·) a b c 4 m := by
  have hlanes :
      (mmAddEpi32 (loadM128i m a) (loadM128i m b)).toList =
        List.zipWith (· + ·) (m.loadBlock a 4) (m.loadBlock b 4) := by
    refine List.ext_getElem (by simp) (fun i _ _ => ?_)
    simp [mmAddEpi32, loadM128i, Memory.loadBlock]
  rw [sum3, storeM128i, hlanes]
  rfl

/-- Neither sum changes a word outside the result block. -/
theorem sums_outside
    {q : Nat}
    (hq : q < c ∨ c + 4 ≤ q) :
    sum0 a b c m q = m q ∧ sum3 a b c m q = m q := by
  rw [sum0_eq_combineForward, sum3_eq_combineBlock]
  constructor
  · exact Memory.combineForward_outside hq
  · exact Memory.combineBlock_outside hq

end Blocks

section Overlap

variable {a b c d : Nat}

/-- The memory whose only nonzero word is a one at `p`. -/
def oneAt
    (p : Nat) :
    Memory Word :=
  fun q => if q = p then 1 else 0

theorem oneAt_same
    (p : Nat) :
    oneAt p p = 1 := by
  simp [oneAt]

theorem oneAt_other
    {p q : Nat}
    (h : q ≠ p) :
    oneAt p q = 0 := by
  simp [oneAt, h]

/-- Lane `d` of the loop reads what lane `0` has stored when the result starts
`d` words behind the first word of `a`; the operand `b` either coincides with
`a` or is read unchanged, when its own start is not nearer. -/
theorem sums_differ_of_nearest
    (hd : 0 < d)
    (hd4 : d < 4)
    (hc : c = a + d)
    (hnear : ¬ Memory.StartsInside b c d) :
    sum0 a b c (oneAt a) (c + d) ≠ sum3 a b c (oneAt a) (c + d) := by
  rw [sum0_eq_combineForward, sum3_eq_combineBlock,
    Memory.combineForward_lane hd4, Memory.combineBlock_lane hd4]
  have hstored :
      Memory.combineForward (· + ·) a b c d (oneAt a) (a + d) =
        1 + oneAt a b := by
    have hlane :=
      Memory.combineForward_lane (f := fun x y : Word => x + y)
        (a := a) (b := b) (c := c) (m := oneAt a) hd
    simpa [hc, oneAt_same] using hlane
  have hold : oneAt a (a + d) = 0 :=
    oneAt_other (by omega)
  rw [hstored, hold]
  by_cases hab : b = a
  · subst hab
    rw [hstored, hold, oneAt_same]
    decide
  · have hunread : ¬ Memory.StartsInside b c (d + 1) := by
      rintro ⟨e, he, hlt, hce⟩
      rcases Nat.lt_or_eq_of_le (Nat.le_of_lt_succ hlt) with hless | heq
      · exact hnear ⟨e, he, hless, hce⟩
      · omega
    rw [Memory.combineForward_operand hunread (Nat.lt_succ_self d),
      oneAt_other hab]
    intro heq
    exact absurd ((BitVec.add_left_inj _).mp heq) (by decide)

theorem sum0_comm
    (m : Memory Word) :
    sum0 a b c m = sum0 b a c m :=
  Memory.combineForward_comm BitVec.add_comm

theorem sum3_comm
    (m : Memory Word) :
    sum3 a b c m = sum3 b a c m := by
  rw [sum3_eq_combineBlock, sum3_eq_combineBlock]
  exact Memory.combineBlock_comm BitVec.add_comm

/-- A result block that starts inside `a` is told apart on some memory. -/
theorem exists_sums_differ
    (h : Memory.StartsInside a c 4) :
    ∃ m, sum0 a b c m ≠ sum3 a b c m := by
  obtain ⟨d, hd, hd4, hc⟩ := h
  by_cases hnear : Memory.StartsInside b c d
  · obtain ⟨e, he, hed, hce⟩ := hnear
    refine ⟨oneAt b, fun heq => ?_⟩
    rw [sum0_comm, sum3_comm] at heq
    have hfar : ¬ Memory.StartsInside a c e := by
      rintro ⟨d', -, hd', hcd'⟩
      omega
    exact sums_differ_of_nearest he (by omega) hce hfar (congrFun heq _)
  · refine ⟨oneAt a, fun heq => ?_⟩
    exact sums_differ_of_nearest hd hd4 hc hnear (congrFun heq _)

end Overlap

/-- The scalar and the SIMD sum leave the same memory, whatever it holds, exactly
when the result block starts one, two or three words behind neither operand;
16-byte aligned pointers are such a case. Both write only the result block. -/
theorem sum0_eq_sum3_iff
    (a b c : Nat) :
    ((∀ m, sum0 a b c m = sum3 a b c m) ↔
      ∀ d, d = 1 ∨ d = 2 ∨ d = 3 → c ≠ a + d ∧ c ≠ b + d) ∧
    (Aligned16 a ∧ Aligned16 b ∧ Aligned16 c →
      ∀ d, d = 1 ∨ d = 2 ∨ d = 3 → c ≠ a + d ∧ c ≠ b + d) ∧
    ∀ (m : Memory Word) (q : Nat), q < c ∨ c + 4 ≤ q →
      sum0 a b c m q = m q ∧ sum3 a b c m q = m q := by
  refine ⟨⟨fun hsame d hd => ?_, fun hfar m => ?_⟩, ?_, fun m q hq =>
    sums_outside a b c m hq⟩
  · have hrange : 0 < d ∧ d < 4 := by
      omega
    constructor
    · intro hc
      obtain ⟨m, hm⟩ := exists_sums_differ (b := b) ⟨d, hrange.1, hrange.2, hc⟩
      exact hm (hsame m)
    · intro hc
      obtain ⟨m, hm⟩ := exists_sums_differ (b := a) ⟨d, hrange.1, hrange.2, hc⟩
      rw [sum0_comm, sum3_comm] at hm
      exact hm (hsame m)
  · rw [sum0_eq_combineForward, sum3_eq_combineBlock]
    refine Memory.combineForward_eq_combineBlock ?_ ?_
    · rintro ⟨d, hd, hd4, hc⟩
      exact (hfar d (by omega)).1 hc
    · rintro ⟨d, hd, hd4, hc⟩
      exact (hfar d (by omega)).2 hc
  · rintro ⟨ha, hb, hc⟩ d hd
    simp only [Aligned16] at ha hb hc
    omega

/-- Three blocks of one aligned array: the result block directly behind the
operands. -/
theorem sum0_eq_sum3_adjacent :
    (∀ m, sum0 0 4 8 m = sum3 0 4 8 m) ∧
    (sum0 0 4 8 (fun _ => 7) 5 = 7 ∧ sum3 0 4 8 (fun _ => 7) 5 = 7) := by
  obtain ⟨hiff, haligned, houtside⟩ := sum0_eq_sum3_iff 0 4 8
  constructor
  · exact hiff.mpr (haligned ⟨rfl, rfl, rfl⟩)
  · exact houtside (fun _ => 7) 5 (by decide)

end Compiler
end AvxX86
end OsSeminars
