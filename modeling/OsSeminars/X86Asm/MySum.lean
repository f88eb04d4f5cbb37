import Mathlib.Algebra.BigOperators.Intervals
import OsSeminars.Foundation.X64

/-!
# 06-x86-asm/mem-access/sum.S

`my_sum` adds the elements of an array with alternating signs. Its loop takes two
elements, and each `dec` leaves the flags for the `jle` that comes next, the
second one for the `jle` at the start of the loop.

So the routine is before a `jle` after any number of elements. There the flags
say whether elements are left, and only the sign of the next element depends on
which of the two places it is.
-/

namespace OsSeminars
namespace X86Asm
namespace MySum

open Foundation X64

inductive Label where
  | mySum
  | startLoop
  | returnEax
deriving DecidableEq

/-- `sum.S`: `n` is in `edi`, `x` in `rsi`. -/
def mySum : List (Assembly.Line Label (Instr Empty Label)) :=
  [ .label .mySum,
    .instr (.mov32Imm .rax 0),
    .instr (.cmp32Imm .rdi 0),
    .label .startLoop,
    .instr (.jumpIf .le .returnEax),
    .instr (.add32 .rax .rsi),
    .instr (.addImm .rsi 4),
    .instr (.dec32 .rdi),
    .instr (.jumpIf .le .returnEax),
    .instr (.sub32 .rax .rsi),
    .instr (.addImm .rsi 4),
    .instr (.dec32 .rdi),
    .instr (.jump .startLoop),
    .label .returnEax,
    .instr .ret ]

/-- A run of `my_sum`. -/
abbrev Runs
    (env : Env Empty) :
    Assembly.Config (State Empty) (BitVec 64) →
      Assembly.Config (State Empty) (BitVec 64) → Prop :=
  Assembly.Runs (exec env) mySum

/-- The argument `n`. -/
def argN
    (s : State Empty) :
    Int :=
  (s.low .rdi).toInt

/-- The address of `x[i]`. -/
def elementAddress
    (s : State Empty)
    (i : Nat) :
    BitVec 64 :=
  s.regs .rsi + BitVec.ofNat 64 (4 * i)

/-- The element `x[i]`. -/
def element
    (s : State Empty)
    (i : Nat) :
    BitVec 32 :=
  s.word32 (elementAddress s i)

/-- The sum of the first `k` elements with alternating signs. -/
def alternatingSum
    (s : State Empty)
    (k : Nat) :
    Int :=
  ∑ i ∈ Finset.range k, (-1) ^ i * (element s i).toInt

/-- The reads of the first `k` elements. -/
def elementReads
    (s : State Empty)
    (k : Nat) :
    List Access :=
  (List.range k).map (fun i => .read (elementAddress s i) 4)

/-- The routine, started in `s₀`, has taken `k` elements. -/
structure Taken
    (s₀ : State Empty)
    (k : Nat)
    (s : State Empty) : Prop where
  eax : s.low .rax = BitVec.ofInt 32 (alternatingSum s₀ k)
  edi : (s.low .rdi).toInt = argN s₀ - k
  rsi : s.regs .rsi = elementAddress s₀ k
  rsp : s.regs .rsp = s₀.regs .rsp
  mem : s.mem = s₀.mem
  accesses : s.accesses = s₀.accesses ++ elementReads s₀ k
  flags : ∃ f, s.flags = some f ∧ Cond.le.holds f = decide (argN s₀ ≤ k)

/-- The `jle` before the element `k`. -/
def place
    (k : Nat) :
    Nat :=
  if k % 2 = 0 then 4 else 8

/-- The instruction that takes the element `k`. -/
def takeElement
    (k : Nat) :
    Instr Empty Label :=
  if k % 2 = 0 then .add32 .rax .rsi else .sub32 .rax .rsi

section Elements

variable {s₀ s : State Empty} {k : Nat}

theorem alternatingSum_succ
    (s₀ : State Empty)
    (k : Nat) :
    BitVec.ofInt 32 (alternatingSum s₀ (k + 1)) =
      if k % 2 = 0 then BitVec.ofInt 32 (alternatingSum s₀ k) + element s₀ k
      else BitVec.ofInt 32 (alternatingSum s₀ k) - element s₀ k := by
  unfold alternatingSum
  rw [Finset.sum_range_succ]
  split
  · next heven =>
      rw [(Nat.even_iff.mpr heven).neg_one_pow, one_mul, BitVec.ofInt_add, BitVec.ofInt_toInt]
  · next hodd =>
      rw [(Nat.odd_iff.mpr (by omega)).neg_one_pow, neg_one_mul, BitVec.ofInt_add,
        BitVec.ofInt_neg, BitVec.ofInt_toInt, ← BitVec.sub_eq_add_neg]

/-- Taking the element `k` changes `eax` only, besides the flags. -/
theorem exec_takeElement
    (env : Env Empty)
    (h : Taken s₀ k s) :
    ∃ f, exec env (takeElement k) s =
      some (((s.noteRead (elementAddress s₀ k) 4).setLow .rax
        (BitVec.ofInt 32 (alternatingSum s₀ (k + 1)))).setFlags f, .next) := by
  have hword : s.word32 (elementAddress s₀ k) = element s₀ k := by
    simp only [element, State.word32, h.mem]
  rw [alternatingSum_succ]
  unfold takeElement
  split
  · exact ⟨_, by rw [exec, h.rsi, hword, h.eax]⟩
  · exact ⟨_, by rw [exec, h.rsi, hword, h.eax]⟩

theorem elementAddress_succ
    (s₀ : State Empty)
    (k : Nat) :
    elementAddress s₀ (k + 1) = elementAddress s₀ k + 4 := by
  unfold elementAddress
  rw [Nat.mul_succ, BitVec.ofNat_add, ← BitVec.add_assoc]
  rfl

theorem elementReads_succ
    (s₀ : State Empty)
    (k : Nat) :
    elementReads s₀ (k + 1) = elementReads s₀ k ++ [.read (elementAddress s₀ k) 4] := by
  simp [elementReads, List.range_succ]

/-- The block between two `jle` takes one element. -/
theorem taken_succ
    (env : Env Empty)
    (hk : (k : Int) < argN s₀)
    (h : Taken s₀ k s) :
    ∃ t, Assembly.runBlock (exec env) [takeElement k, .addImm .rsi 4, .dec32 .rdi] s = some t ∧
      Taken s₀ (k + 1) t := by
  obtain ⟨f, htake⟩ := exec_takeElement env h
  have hedi := h.edi
  have hlow : (s.low .rdi - 1).toInt = argN s₀ - (k + 1 : Nat) := by
    have hlt := BitVec.toInt_lt (x := s.low .rdi)
    rw [BitVec.toInt_sub, hedi, show (1 : BitVec 32).toInt = 1 from rfl,
      Int.bmod_eq_of_le (by omega) (by omega)]
    omega
  refine ⟨_, by rw [Assembly.runBlock, htake]; rfl, ?_⟩
  constructor
  · show ((BitVec.ofInt 32 (alternatingSum s₀ (k + 1))).setWidth 64).setWidth 32 = _
    simp
  · show (((s.low .rdi - 1).setWidth 64).setWidth 32).toInt = _
    rw [BitVec.setWidth_setWidth_of_le _ (by decide), BitVec.setWidth_eq]
    exact hlow
  · show s.regs .rsi + 4 = _
    rw [h.rsi, elementAddress_succ]
  · exact h.rsp
  · exact h.mem
  · show s.accesses ++ [.read (elementAddress s₀ k) 4] = _
    rw [h.accesses, elementReads_succ, List.append_assoc]
  · refine ⟨subFlags (s.low .rdi) 1, rfl, ?_⟩
    rw [le_holds_subFlags, hedi, show (1 : BitVec 32).toInt = 1 from rfl, decide_eq_decide]
    omega

/-- As long as elements are left the `jle` does not jump, and the next element is taken. -/
theorem runs_element
    (env : Env Empty)
    (hk : (k : Int) < argN s₀)
    (h : Taken s₀ k s) :
    ∃ t, Runs env (.running (place k) s) (.running (place (k + 1)) t) ∧ Taken s₀ (k + 1) t := by
  obtain ⟨f, hf, hle⟩ := h.flags
  have hstay : exec env (.jumpIf .le .returnEax : Instr Empty Label) s = some (s, .next) :=
    exec_jumpIf_of_not_holds hf (by rw [hle, decide_eq_false (by omega)])
  obtain ⟨t, hblock, ht⟩ := taken_succ env hk h
  refine ⟨t, ?_, ht⟩
  unfold place
  by_cases heven : k % 2 = 0
  · rw [if_pos heven, if_neg (by omega)]
    rw [takeElement, if_pos heven] at hblock
    exact (Assembly.Runs.next rfl hstay).trans (Assembly.Runs.block _ ⟨_, rfl⟩ hblock)
  · rw [if_neg heven, if_pos (by omega)]
    rw [takeElement, if_neg heven] at hblock
    exact (Assembly.Runs.next rfl hstay).trans
      ((Assembly.Runs.block _ ⟨_, rfl⟩ hblock).trans
        ((Assembly.Runs.jump rfl rfl rfl).trans (Assembly.Runs.label rfl)))

/-- When no element is left the `jle` leads to the `ret`. -/
theorem runs_return
    (env : Env Empty)
    (hk : argN s₀ ≤ k)
    (h : Taken s₀ k s) :
    ∃ t, Runs env (.running (place k) s) (.returned (s.word64 (s.regs .rsp)) t) ∧
      t.low .rax = s.low .rax ∧ t.mem = s.mem ∧
      t.accesses = s.accesses ++ [.read (s.regs .rsp) 8] := by
  obtain ⟨f, hf, hle⟩ := h.flags
  have hjump :
      exec env (.jumpIf .le .returnEax : Instr Empty Label) s = some (s, .jump .returnEax) :=
    exec_jumpIf_of_holds hf (by rw [hle, decide_eq_true hk])
  have hline : mySum[place k]? = some (.instr (.jumpIf .le .returnEax)) := by
    unfold place
    split <;> rfl
  exact ⟨_, (Assembly.Runs.jump hline hjump rfl).trans
    ((Assembly.Runs.label rfl).trans (Assembly.Runs.leave rfl rfl)), rfl, rfl, rfl⟩

/-- The number of elements, 0 for a negative `n`. -/
def count
    (s : State Empty) :
    Nat :=
  (argN s).toNat

theorem runs_elements
    (env : Env Empty)
    (h : Taken s₀ 0 s)
    {k : Nat}
    (hk : k ≤ count s₀) :
    ∃ t, Runs env (.running (place 0) s) (.running (place k) t) ∧ Taken s₀ k t := by
  induction k with
  | zero =>
      exact ⟨s, Assembly.Runs.refl _, h⟩
  | succ k ih =>
      obtain ⟨t, hruns, ht⟩ := ih (by omega)
      unfold count at hk
      obtain ⟨u, hnext, hu⟩ := runs_element env (by omega) ht
      exact ⟨u, hruns.trans hnext, hu⟩

/-- The first instructions clear `eax` and compare `n` with 0. -/
theorem runs_start
    (env : Env Empty)
    (s : State Empty) :
    ∃ t, Runs env (.running 0 s) (.running (place 0) t) ∧ Taken s 0 t := by
  have hblock : Runs env (.running 1 s) _ :=
    Assembly.Runs.block [.mov32Imm .rax 0, .cmp32Imm .rdi 0] ⟨_, rfl⟩ rfl
  refine ⟨_, (Assembly.Runs.label rfl).trans (hblock.trans (Assembly.Runs.label rfl)), ?_⟩
  constructor
  · rfl
  · show argN s = argN s - (0 : Nat)
    omega
  · show s.regs .rsi = s.regs .rsi + BitVec.ofNat 64 (4 * 0)
    simp
  · rfl
  · rfl
  · simp [elementReads, State.setFlags, State.setLow, State.set]
  · exact ⟨_, rfl, le_holds_subFlags (s.low .rdi) 0⟩

end Elements

/--
`my_sum` returns, with the alternating sum of the first `max n 0` elements in
`eax`. It reads these elements in order and, in its `ret`, the return address,
and it writes nothing.
-/
theorem my_sum_sums
    (env : Env Empty)
    (s : State Empty) :
    ∃ t, Runs env (.running 0 s) (.returned (s.word64 (s.regs .rsp)) t) ∧
      t.low .rax = BitVec.ofInt 32 (alternatingSum s (count s)) ∧
      t.accesses = s.accesses ++ elementReads s (count s) ++ [.read (s.regs .rsp) 8] ∧
      t.mem = s.mem := by
  obtain ⟨t, hstart, ht⟩ := runs_start env s
  obtain ⟨u, hloop, hu⟩ := runs_elements env ht le_rfl
  have hall : argN s ≤ count s := by
    unfold count
    omega
  obtain ⟨v, hreturn, heax, hmem, haccesses⟩ := runs_return env hall hu
  rw [State.word64, hu.rsp, hu.mem] at hreturn
  refine ⟨v, hstart.trans (hloop.trans hreturn), heax.trans hu.eax, ?_, hmem.trans hu.mem⟩
  rw [haccesses, hu.accesses, hu.rsp]

end MySum
end X86Asm
end OsSeminars
