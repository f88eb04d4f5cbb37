import OsSeminars.AvxX86.Intro64

/-!
# 07-avx-x86/intro-64/intro-64.S: termination and bounds

The body of the loop runs before the first comparison, and the index takes the
values 8, 16 and so on. So the loop ends inside the arrays exactly when `N` is
one of them. For any other `N` it comes to the pass `N / 8`, whose first load
goes beyond the end of its array.

An array that is not aligned to 32 bytes stops the routine at its first access.
-/

namespace OsSeminars
namespace AvxX86
namespace Intro64

open Foundation Avx

/-- The 32 bytes of an access are among the `N` elements of its array. -/
def InsideArray
    (s : State ℚ)
    (a : Access) :
    Prop :=
  (s.regs a.base).toNat ≤ a.address.toNat ∧
    a.address.toNat + 32 ≤ (s.regs a.base).toNat + 4 * argN s

/-- The routine terminates, and every access on its way is inside its array. -/
def Safe
    (s : State ℚ) :
    Prop :=
  (∃ t, Runs (.running 0 s) (.returned () t)) ∧
    ∀ c, Runs (.running 0 s) c → ∀ a ∈ c.state.accesses, InsideArray s a

section Addresses

variable {s : State ℚ} {k : Nat} {r : X64.Reg}

/-- A block that is a whole part of the arrays. -/
theorem insideArray_of_block
    (hfits : Fits s)
    (hk : 8 * (k + 1) ≤ argN s)
    {a : Access}
    (ha : a ∈ blockAccesses s k) :
    InsideArray s a := by
  have hbase : a.base ∈ arrays ∧ a.address = blockAddress s a.base k := by
    simp only [blockAccesses, List.mem_cons, List.not_mem_nil, or_false] at ha
    rcases ha with rfl | rfl | rfl
    · exact ⟨List.mem_cons_self, rfl⟩
    · exact ⟨List.mem_cons_of_mem _ List.mem_cons_self, rfl⟩
    · exact ⟨List.mem_cons_of_mem _ (List.mem_cons_of_mem _ List.mem_cons_self), rfl⟩
  have hend := hfits a.base hbase.1
  unfold InsideArray
  rw [hbase.2, toNat_blockAddress (by omega)]
  omega

/-- A block that is not a whole part of an array. -/
theorem not_insideArray_of_block
    (hfits : Fits s)
    (hr : r ∈ arrays)
    (hk : argN s < 8 * (k + 1))
    (hk' : 8 * k < argN s ∨ k = 0)
    {store : Bool} :
    ¬ InsideArray s ⟨store, r, blockAddress s r k⟩ := by
  have hend := hfits r hr
  have hlt := (s.regs r).isLt
  rintro ⟨-, hinside⟩
  rw [toNat_blockAddress (by omega)] at hinside
  dsimp only at hinside
  omega

end Addresses

section Safety

variable {s : State ℚ} {k : Nat}

/-- A run that can still return has recorded what the whole run records at most. -/
theorem accesses_of_returned
    {t : State ℚ}
    (ht : Runs (.running 0 s) (.returned () t))
    {c : Assembly.Config (State ℚ) Unit}
    (hc : Runs (.running 0 s) c) :
    c.state.accesses <+: t.accesses := by
  rcases hc.total ht with h | h
  · exact Assembly.Runs.state_rel (R := fun s t => s.accesses <+: t.accesses)
      (fun _ => List.prefix_rfl) (fun _ _ _ => List.IsPrefix.trans)
      (fun _ _ _ _ => accesses_of_exec) h
  · rw [h.of_returned]
    exact List.prefix_rfl

theorem safe_of_multiple
    (hnone : s.accesses = [])
    (hfits : Fits s)
    (haligned : ∀ r ∈ arrays, Aligned (s.regs r))
    (hN : argN s = 8 * (k + 1)) :
    Safe s := by
  obtain ⟨t, hruns, ht⟩ := runs_whole hfits haligned hN
  refine ⟨⟨t, hruns⟩, fun c hc a ha => ?_⟩
  have hall := (accesses_of_returned hruns hc).subset ha
  rw [ht.accesses, hnone, List.nil_append, List.mem_flatMap] at hall
  obtain ⟨j, hj, hblock⟩ := hall
  rw [List.mem_range] at hj
  exact insideArray_of_block hfits (by omega) hblock

/-- A routine that returns has found its arrays aligned. -/
theorem aligned_of_returned
    {t : State ℚ}
    (ht : Runs (.running 0 s) (.returned () t)) :
    ∀ r ∈ arrays, Aligned (s.regs r) := by
  obtain ⟨u, hstart, hu⟩ := runs_start s
  have hfault : ∀ {v : State ℚ} {r : X64.Reg}, v.operand r .rax = blockAddress s r 0 →
      ¬ Aligned (s.regs r) → ¬ Aligned (v.operand r .rax) := fun heq hnot => by
    rwa [heq, aligned_blockAddress]
  have hA : Aligned (s.regs .rsi) := by
    by_contra hnot
    exact Assembly.Runs.not_returned_of_fault hstart rfl
      (exec_load_fault (d := 0) (hfault (operand_eq hu (by decide)) hnot)) ht
  have hB : Aligned (s.regs .rdx) := by
    by_contra hnot
    exact Assembly.Runs.not_returned_of_fault
      (hstart.trans (Assembly.Runs.next rfl (exec_loadA hA hu))) rfl
      (exec_load_fault (d := 1) (hfault (operand_eq hu (by decide)) hnot)) ht
  have hR : Aligned (s.regs .rcx) := by
    by_contra hnot
    obtain ⟨v, hloads, hregs, -, hsum, hacc, -⟩ := runs_loads hA hB hu
    have hadd := exec_vaddps (L := Label) (d := 2) (hacc.trans hu.accumulator) hsum
    refine Assembly.Runs.not_returned_of_fault
      (hstart.trans (hloads.trans (Assembly.Runs.next rfl hadd))) rfl
      (exec_store_fault (a := 0) (hfault ?_ hnot)) ht
    show v.regs .rcx + v.regs .rax * 4 = _
    rw [hregs]
    exact operand_eq hu (by decide)
  intro r hr
  simp only [arrays, List.mem_cons, List.not_mem_nil, or_false] at hr
  rcases hr with rfl | rfl | rfl
  · exact hA
  · exact hB
  · exact hR

/-- The pass `N / 8` loads a block that is not in the array. -/
theorem not_safe_of_remainder
    (hfits : Fits s)
    (haligned : ∀ r ∈ arrays, Aligned (s.regs r))
    (hN : argN s % 8 ≠ 0 ∨ argN s = 0) :
    ¬ Safe s := by
  rintro ⟨-, hinside⟩
  have hlt : argN s < 2 ^ 64 := (s.regs .rdi).isLt
  obtain ⟨t, hruns, ht⟩ :=
    runs_passes (k := argN s / 8) haligned (by omega) (fun j _ _ => by omega)
  have hload := hruns.trans
    (Assembly.Runs.next rfl (exec_loadA (haligned .rsi (by decide)) ht))
  have hlast := hinside _ hload ⟨false, .rsi, blockAddress s .rsi (argN s / 8)⟩
    (List.mem_append_right _ List.mem_cons_self)
  exact not_insideArray_of_block hfits (by decide) (by omega) (by omega) hlast

end Safety

/--
The loop terminates with all accesses inside the arrays if and only if `N` is a
positive multiple of eight and the arrays are aligned to 32 bytes.
-/
theorem loop_safe_iff
    (regs : X64.Registers)
    (flags : Option X64.Flags)
    (ymm : Fin 16 → Vec ℚ)
    (mem : Memory ℚ)
    (hfits : Fits (entry regs flags ymm mem)) :
    Safe (entry regs flags ymm mem) ↔
      (regs .rdi).toNat ≠ 0 ∧ 8 ∣ (regs .rdi).toNat ∧ ∀ r ∈ arrays, Aligned (regs r) := by
  constructor
  · intro hsafe
    obtain ⟨t, ht⟩ := hsafe.1
    have haligned := aligned_of_returned ht
    have hN : ¬ ((regs .rdi).toNat % 8 ≠ 0 ∨ (regs .rdi).toNat = 0) :=
      fun hbad => not_safe_of_remainder hfits haligned hbad hsafe
    exact ⟨by omega, by omega, haligned⟩
  · rintro ⟨hpos, ⟨k, hk⟩, haligned⟩
    obtain ⟨k, rfl⟩ := Nat.exists_eq_succ_of_ne_zero (by omega : k ≠ 0)
    exact safe_of_multiple rfl hfits haligned hk

theorem loop_safe_eight :
    Safe (separate 8 0) :=
  (loop_safe_iff _ _ _ _ (fits_separate (n := 8) 0 (by decide))).mpr
    ⟨by decide, by decide, aligned_separate 8 0⟩

/-- With `N = 12` the second pass goes beyond the arrays. -/
theorem not_loop_safe_twelve :
    Fits (separate 12 0) ∧ (∀ r ∈ arrays, Aligned ((separate 12 0).regs r)) ∧
      ¬ Safe (separate 12 0) :=
  ⟨fits_separate 0 (by decide), aligned_separate 12 0,
    not_safe_of_remainder (fits_separate 0 (by decide)) (aligned_separate 12 0)
      (Or.inl (by decide))⟩

end Intro64
end AvxX86
end OsSeminars
