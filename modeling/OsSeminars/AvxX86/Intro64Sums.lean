import OsSeminars.AvxX86.Intro64

/-!
# 07-avx-x86/intro-64/intro-64.S: the sums and their average

When the result array is one of the operands or apart from both, a pass finds its
operands as they were on entry: what the passes before it have stored lies in
front of its own blocks or elsewhere. So the loop adds the arrays as if both had
been loaded first, and the accumulator has the sums of the old values.
-/

namespace OsSeminars
namespace AvxX86
namespace Intro64

open Foundation Avx

/-- The result array is the array in `p`, or it has no byte in common with it. -/
def SameOrDisjoint
    (s : State ℚ)
    (p : X64.Reg) :
    Prop :=
  s.regs .rcx = s.regs p ∨
    (s.regs .rcx).toNat + 4 * argN s ≤ (s.regs p).toNat ∨
    (s.regs p).toNat + 4 * argN s ≤ (s.regs .rcx).toNat

/-- The element `i` of the array in a register, with the memory `m`. -/
def element
    (s : State ℚ)
    (m : Memory ℚ)
    (base : X64.Reg)
    (i : Nat) :
    ℚ :=
  m (cell (s.regs base) + i)

/-- The assumptions on the arrays. -/
structure Arrays
    (s : State ℚ) : Prop where
  fits : Fits s
  aligned : ∀ r ∈ arrays, Aligned (s.regs r)
  resultA : SameOrDisjoint s .rsi
  resultB : SameOrDisjoint s .rdx

section Passes

variable {s : State ℚ} {k : Nat}

theorem cell_blockAddress
    (hs : Arrays s)
    {r : X64.Reg}
    (hr : r ∈ arrays)
    (hk : 8 * (k + 1) ≤ argN s) :
    cell (blockAddress s r k) = cell (s.regs r) + 8 * k := by
  have hend := hs.fits r hr
  have haligned := hs.aligned r hr
  unfold Aligned at haligned
  unfold cell
  rw [toNat_blockAddress (by omega)]
  omega

/-- The cells of an operand from block `k` on are not among the first `k` blocks of
the result. -/
theorem operand_outside
    (hs : Arrays s)
    {p : X64.Reg}
    (hp : p ∈ arrays)
    (hresult : SameOrDisjoint s p)
    (hk : 8 * (k + 1) ≤ argN s)
    (i : Fin 8) :
    cell (s.regs p) + 8 * k + i < cell (s.regs .rcx) ∨
      cell (s.regs .rcx) + 8 * k ≤ cell (s.regs p) + 8 * k + i := by
  have halignedP := hs.aligned p hp
  have halignedR := hs.aligned .rcx (by decide)
  unfold Aligned at halignedP halignedR
  have hi := i.isLt
  unfold cell
  rcases hresult with heq | hdisjoint
  · rw [heq]
    omega
  · omega

/-- The arrays added as a whole, up to the element `n`. -/
def wholeSum
    (s : State ℚ)
    (n : Nat) :
    Memory ℚ :=
  s.mem.combineBlock (· + ·) (cell (s.regs .rsi)) (cell (s.regs .rdx)) (cell (s.regs .rcx)) n

/-- The next block of an operand is still as on entry. -/
theorem loadVec_wholeSum
    (hs : Arrays s)
    {p : X64.Reg}
    (hp : p ∈ arrays)
    (hresult : SameOrDisjoint s p)
    (hk : 8 * (k + 1) ≤ argN s) :
    loadVec (wholeSum s (8 * k)) (cell (blockAddress s p k)) =
      loadVec s.mem (cell (s.regs p) + 8 * k) := by
  funext i
  rw [cell_blockAddress hs hp hk]
  exact Memory.combineBlock_outside (operand_outside hs hp hresult hk i)

/-- The memory after `k` passes. -/
theorem memAfter_eq
    (hs : Arrays s)
    (hk : 8 * k ≤ argN s) :
    memAfter s k = wholeSum s (8 * k) := by
  induction k with
  | zero =>
      exact Memory.storeBlock_nil.symm
  | succ k ih =>
      rw [memAfter, ih (by omega), blockSum, cell_blockAddress hs (by decide) hk,
        loadVec_wholeSum hs (by decide) hs.resultA hk,
        loadVec_wholeSum hs (by decide) hs.resultB hk, ofFn_loadVec_add, wholeSum, wholeSum,
        Nat.mul_succ, Memory.combineBlock_add]

/-- The sums that pass `k` adds to the accumulator. -/
theorem blockSum_eq
    (hs : Arrays s)
    (hk : 8 * (k + 1) ≤ argN s)
    (i : Fin 8) :
    blockSum s (memAfter s k) k i =
      element s s.mem .rsi (8 * k + i) + element s s.mem .rdx (8 * k + i) := by
  rw [memAfter_eq hs (by omega), blockSum, loadVec_wholeSum hs (by decide) hs.resultA hk,
    loadVec_wholeSum hs (by decide) hs.resultB hk]
  simp only [Pi.add_apply, loadVec, element, Nat.add_assoc]

/-- The lanes of the accumulator together are the sum of all elements so far. -/
theorem sum_accumulated
    (hs : Arrays s)
    (hk : 8 * k ≤ argN s) :
    ∑ i, accumulated s k i =
      ∑ j ∈ Finset.range (8 * k), (element s s.mem .rsi j + element s s.mem .rdx j) := by
  induction k with
  | zero =>
      simp [accumulated]
  | succ k ih =>
      rw [Nat.mul_succ, Finset.sum_range_add, ← ih (by omega), Finset.sum_range,
        ← Finset.sum_add_distrib]
      refine Finset.sum_congr rfl (fun i _ => ?_)
      rw [accumulated, Pi.add_apply, blockSum_eq hs hk]

end Passes

/--
For a positive multiple of eight the routine returns with `R[i] = A[i] + B[i]` for
the old values of both arrays, with nothing else changed, and with the average in
`xmm0`.
-/
theorem adds_and_averages
    (s : State ℚ)
    (m : Nat)
    (hm : 1 ≤ m)
    (hN : argN s = 8 * m)
    (hs : Arrays s) :
    ∃ t, Runs (.running 0 s) (.returned () t) ∧
      (∀ i < argN s, element s t.mem .rcx i = element s s.mem .rsi i + element s s.mem .rdx i) ∧
      (∀ q, (∀ i < argN s, q ≠ cell (s.regs .rcx) + i) → t.mem q = s.mem q) ∧
      Vec.double? (t.ymm 0) =
        some ((∑ i ∈ Finset.range (argN s), element s s.mem .rsi i +
          ∑ i ∈ Finset.range (argN s), element s s.mem .rdx i) / argN s) := by
  obtain ⟨k, rfl⟩ := Nat.exists_eq_add_of_le' hm
  obtain ⟨t, hruns, ht⟩ := runs_whole hs.fits hs.aligned hN
  have hmem : t.mem = wholeSum s (argN s) := by
    rw [ht.mem, memAfter_eq hs (le_of_eq hN.symm), hN]
  refine ⟨t, hruns, ?_, ?_, ?_⟩
  · intro i hi
    rw [element, hmem]
    exact Memory.combineBlock_lane hi
  · intro q hq
    rw [hmem]
    refine Memory.combineBlock_outside ?_
    by_contra hin
    rw [not_or, Nat.not_lt, Nat.not_le] at hin
    exact hq (q - cell (s.regs .rcx)) (by omega) (by omega)
  · rw [ht.result, sum_accumulated hs (le_of_eq hN.symm), ← hN, Finset.sum_add_distrib]

/-- The arrays of `main`: the elements are 1 to 8, twice. -/
def filled : State ℚ :=
  separate 8 (fun q => (q % 8 + 1 : Nat))

theorem filled_arrays : Arrays filled where
  fits := fits_separate _ (by decide)
  aligned := aligned_separate _ _
  resultA := Or.inr (Or.inr (by decide))
  resultB := Or.inr (Or.inr (by decide))

theorem adds_and_averages_filled :
    ∃ t, Runs (.running 0 filled) (.returned () t) ∧
      element filled t.mem .rcx 7 = 16 ∧ Vec.double? (t.ymm 0) = some 9 := by
  obtain ⟨t, hruns, hsums, -, haverage⟩ :=
    adds_and_averages filled 1 (by decide) (by decide) filled_arrays
  have hA : ∀ i, element filled filled.mem .rsi i = ((1024 + i) % 8 + 1 : Nat) := fun _ => rfl
  have hB : ∀ i, element filled filled.mem .rdx i = ((2048 + i) % 8 + 1 : Nat) := fun _ => rfl
  have hN : argN filled = 8 := rfl
  refine ⟨t, hruns, ?_, ?_⟩
  · rw [hsums 7 (by decide), hA, hB]
    norm_num
  · rw [haverage, hN]
    simp only [hA, hB, Finset.sum_range_succ, Finset.sum_range_zero]
    norm_num

end Intro64
end AvxX86
end OsSeminars
