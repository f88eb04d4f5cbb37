import Mathlib.Algebra.BigOperators.Fin
import Mathlib.Algebra.Order.Field.Rat
import Mathlib.Tactic.Ring
import OsSeminars.Foundation.Avx

/-!
# 07-avx-x86/intro-64/intro-64.S: the loop

`very_important_function` adds two arrays eight elements at a time, stores the
sums in a third array, and accumulates them lane by lane. Its index starts at 0,
goes up by eight, and the loop is left when it equals `N`.

Nothing is assumed here about how the arrays overlap. After `k` passes the memory
is the one that storing `k` blocks one after the other leaves, each computed from
the memory before its store.
-/

namespace OsSeminars
namespace AvxX86
namespace Intro64

open Foundation Avx

inductive Label where
  | veryImportantFunction
  | loop
deriving DecidableEq

/-- `intro-64.S`: `N` is in `rdi`, the arrays in `rsi`, `rdx` and `rcx`. -/
def veryImportantFunction : List (Assembly.Line Label (Instr Label)) :=
  [ .label .veryImportantFunction,
    .instr (.xor .rax .rax),
    .instr (.vxorpd 2 2 2),
    .label .loop,
    .instr (.vmovapsLoad 0 .rsi .rax),
    .instr (.vmovapsLoad 1 .rdx .rax),
    .instr (.vaddps 0 0 1),
    .instr (.vaddps 2 2 0),
    .instr (.vmovapsStore .rcx .rax 0),
    .instr (.addImm .rax 8),
    .instr (.cmp .rax .rdi),
    .instr (.jumpIf .notZero .loop),
    .instr (.vmovaps 0 2),
    .instr (.vextractf128 1 0 1),
    .instr (.haddps 1 0),
    .instr (.haddps 1 1),
    .instr (.haddps 1 1),
    .instr (.vcvtsi2sd 0 0 .rdi),
    .instr (.vcvtss2sd 1 1 1),
    .instr (.vdivsd 0 1 0),
    .instr .ret ]

/-- A run of the routine, in rational arithmetic. -/
abbrev Runs :
    Assembly.Config (State ℚ) Unit → Assembly.Config (State ℚ) Unit → Prop :=
  Assembly.Runs exec veryImportantFunction

/-- The state on entry, with nothing recorded. -/
def entry
    (regs : X64.Registers)
    (flags : Option X64.Flags)
    (ymm : Fin 16 → Vec ℚ)
    (mem : Memory ℚ) :
    State ℚ where
  regs := regs
  flags := flags
  ymm := ymm
  mem := mem
  accesses := []

/-- The argument `N`. -/
def argN
    (s : State ℚ) :
    Nat :=
  (s.regs .rdi).toNat

/-- The block `k` of the array in a register. -/
def blockAddress
    (s : State ℚ)
    (base : X64.Reg)
    (k : Nat) :
    BitVec 64 :=
  s.regs base + BitVec.ofNat 64 (32 * k)

/-- The sums of the blocks `k` of both operands. -/
def blockSum
    (s : State ℚ)
    (m : Memory ℚ)
    (k : Nat) :
    Fin 8 → ℚ :=
  loadVec m (cell (blockAddress s .rsi k)) + loadVec m (cell (blockAddress s .rdx k))

/-- The memory after `k` passes of the loop. -/
def memAfter
    (s : State ℚ) :
    Nat → Memory ℚ
  | 0 => s.mem
  | k + 1 =>
      (memAfter s k).storeBlock (cell (blockAddress s .rcx k))
        (List.ofFn (blockSum s (memAfter s k) k))

/-- The accumulator after `k` passes. -/
def accumulated
    (s : State ℚ) :
    Nat → Fin 8 → ℚ
  | 0 => 0
  | k + 1 => accumulated s k + blockSum s (memAfter s k) k

/-- The accesses of one pass. -/
def blockAccesses
    (s : State ℚ)
    (k : Nat) :
    List Access :=
  [⟨false, .rsi, blockAddress s .rsi k⟩, ⟨false, .rdx, blockAddress s .rdx k⟩,
    ⟨true, .rcx, blockAddress s .rcx k⟩]

/-- The registers that hold the arrays. -/
def arrays : List X64.Reg :=
  [.rsi, .rdx, .rcx]

/-- The loop after `k` passes. -/
structure Passed
    (s : State ℚ)
    (k : Nat)
    (t : State ℚ) : Prop where
  rax : t.regs .rax = BitVec.ofNat 64 (8 * k)
  others : ∀ r, r ≠ .rax → t.regs r = s.regs r
  accumulator : t.ymm 2 = singles (accumulated s k)
  mem : t.mem = memAfter s k
  accesses : t.accesses = s.accesses ++ (List.range k).flatMap (blockAccesses s)

section Blocks

variable {s t : State ℚ} {k : Nat}

theorem operand_eq
    (h : Passed s k t)
    {base : X64.Reg}
    (hbase : base ≠ .rax) :
    t.operand base .rax = blockAddress s base k := by
  unfold State.operand blockAddress
  rw [h.rax, h.others base hbase, show (4 : BitVec 64) = BitVec.ofNat 64 4 from rfl,
    ← BitVec.ofNat_mul, Nat.mul_right_comm]

/-- The blocks of an array are aligned as the array is, also where addresses wrap around. -/
theorem aligned_blockAddress
    (s : State ℚ)
    (base : X64.Reg)
    (k : Nat) :
    Aligned (blockAddress s base k) ↔ Aligned (s.regs base) := by
  unfold Aligned blockAddress
  rw [BitVec.toNat_add, BitVec.toNat_ofNat]
  omega

theorem toNat_blockAddress
    {base : X64.Reg}
    (h : (s.regs base).toNat + 32 * k < 2 ^ 64) :
    (blockAddress s base k).toNat = (s.regs base).toNat + 32 * k := by
  unfold blockAddress
  rw [BitVec.toNat_add, BitVec.toNat_ofNat]
  omega

/-- The first load of a pass. -/
theorem exec_loadA
    (haligned : Aligned (s.regs .rsi))
    (h : Passed s k t) :
    exec (L := Label) (.vmovapsLoad 0 .rsi .rax) t =
      some ((t.note ⟨false, .rsi, blockAddress s .rsi k⟩).setVec 0
        (singles (loadVec t.mem (cell (blockAddress s .rsi k)))), .next) := by
  have ha : t.operand .rsi .rax = blockAddress s .rsi k := operand_eq h (by decide)
  rw [exec_load (by rw [ha]; exact (aligned_blockAddress s .rsi k).mpr haligned), ha]

/-- The loads of one pass, and their sum in `ymm0`. -/
theorem runs_loads
    (hA : Aligned (s.regs .rsi))
    (hB : Aligned (s.regs .rdx))
    (h : Passed s k t) :
    ∃ u, Runs (.running 4 t) (.running 7 u) ∧ u.regs = t.regs ∧ u.mem = t.mem ∧
      u.ymm 0 = singles (blockSum s (memAfter s k) k) ∧ u.ymm 2 = t.ymm 2 ∧
      u.accesses = t.accesses ++
        [⟨false, .rsi, blockAddress s .rsi k⟩, ⟨false, .rdx, blockAddress s .rdx k⟩] := by
  let t₁ := (t.note ⟨false, .rsi, blockAddress s .rsi k⟩).setVec 0
    (singles (loadVec t.mem (cell (blockAddress s .rsi k))))
  let t₂ := (t₁.note ⟨false, .rdx, blockAddress s .rdx k⟩).setVec 1
    (singles (loadVec t.mem (cell (blockAddress s .rdx k))))
  have hb : t₁.operand .rdx .rax = blockAddress s .rdx k := operand_eq h (by decide)
  have hload : exec (L := Label) (.vmovapsLoad 1 .rdx .rax) t₁ = some (t₂, .next) := by
    rw [exec_load (by rw [hb]; exact (aligned_blockAddress s .rdx k).mpr hB), hb]
    rfl
  have hadd : exec (L := Label) (.vaddps 0 0 1) t₂ =
      some (t₂.setVec 0 (singles (blockSum s t.mem k)), .next) :=
    exec_vaddps rfl rfl
  refine ⟨_, (Assembly.Runs.next rfl (exec_loadA hA h)).trans
    ((Assembly.Runs.next rfl hload).trans (Assembly.Runs.next rfl hadd)), rfl, rfl, ?_, rfl, ?_⟩
  · rw [← h.mem]
    rfl
  · show (t.accesses ++ [_]) ++ [_] = _
    rw [List.append_assoc]
    rfl

/-- One pass of the loop body. -/
theorem runs_body
    (haligned : ∀ r ∈ arrays, Aligned (s.regs r))
    (h : Passed s k t) :
    ∃ u, Runs (.running 4 t) (.running 10 u) ∧ Passed s (k + 1) u := by
  obtain ⟨u, hloads, hregs, hmem, hsum, hacc, haccesses⟩ :=
    runs_loads (haligned .rsi (by decide)) (haligned .rdx (by decide)) h
  let u₁ := u.setVec 2 (singles (accumulated s (k + 1)))
  have hadd : exec (L := Label) (.vaddps 2 2 0) u = some (u₁, .next) :=
    exec_vaddps (hacc.trans h.accumulator) hsum
  have hc : u₁.operand .rcx .rax = blockAddress s .rcx k := by
    show u.regs .rcx + u.regs .rax * 4 = _
    rw [hregs]
    exact operand_eq h (by decide)
  have halignedStore : Aligned (u₁.operand .rcx .rax) := by
    rw [hc]
    exact (aligned_blockAddress s .rcx k).mpr (haligned .rcx (by decide))
  have hstore := exec_store (L := Label) (a := 0) halignedStore hsum
  refine ⟨_, hloads.trans ((Assembly.Runs.next rfl hadd).trans
    ((Assembly.Runs.next rfl hstore).trans (Assembly.Runs.next rfl rfl))), ?_⟩
  constructor
  · show u.regs .rax + 8 = _
    rw [hregs, h.rax, Nat.mul_succ, BitVec.ofNat_add]
    rfl
  · intro r hr
    show Function.update u.regs .rax _ r = _
    rw [Function.update_of_ne hr, hregs]
    exact h.others r hr
  · rfl
  · show u.mem.storeBlock (cell (u₁.operand .rcx .rax)) _ = _
    rw [hc, hmem, h.mem]
    rfl
  · show u.accesses ++ [⟨true, .rcx, u₁.operand .rcx .rax⟩] = _
    rw [hc, haccesses, h.accesses, List.range_succ, List.flatMap_append, List.append_assoc,
      List.append_assoc]
    rfl

/-- The comparison behind the body. -/
theorem runs_compare
    (hfits : 8 * k < 2 ^ 64)
    (h : Passed s k t) :
    ∃ u, Runs (.running 10 t) (.running (if 8 * k = argN s then 12 else 4) u) ∧
      Passed s k u := by
  let compared := t.setFlags (X64.subFlags (t.regs .rax) (t.regs .rdi))
  have hequal : BitVec.ofNat 64 (8 * k) = s.regs .rdi ↔ 8 * k = argN s := by
    rw [← BitVec.toNat_inj, BitVec.toNat_ofNat, Nat.mod_eq_of_lt hfits, argN]
  have hzero : X64.Cond.notZero.holds (X64.subFlags (t.regs .rax) (t.regs .rdi)) =
      !decide (8 * k = argN s) := by
    rw [X64.notZero_holds_subFlags, h.rax, h.others .rdi (by decide), decide_eq_decide.mpr hequal]
  have hjump : exec (L := Label) (.jumpIf .notZero .loop) compared =
      some (compared, if 8 * k = argN s then .next else .jump .loop) := by
    show some (compared, if X64.Cond.notZero.holds _ = true then _ else _) = _
    rw [hzero]
    split <;> simp_all
  have hkept : Passed s k compared := ⟨h.rax, h.others, h.accumulator, h.mem, h.accesses⟩
  refine ⟨compared, ?_, hkept⟩
  split
  · next hend =>
      rw [if_pos hend] at hjump
      exact (Assembly.Runs.next rfl rfl).trans (Assembly.Runs.next rfl hjump)
  · next hmore =>
      rw [if_neg hmore] at hjump
      exact (Assembly.Runs.next rfl rfl).trans
        ((Assembly.Runs.jump rfl hjump rfl).trans (Assembly.Runs.label rfl))

theorem runs_start
    (s : State ℚ) :
    ∃ t, Runs (.running 0 s) (.running 4 t) ∧ Passed s 0 t := by
  have hblock : Runs (.running 1 s) _ :=
    Assembly.Runs.block [.xor .rax .rax, .vxorpd 2 2 2] ⟨_, rfl⟩ rfl
  refine ⟨_, (Assembly.Runs.label rfl).trans (hblock.trans (Assembly.Runs.label rfl)), ?_⟩
  constructor
  · show s.regs .rax ^^^ s.regs .rax = _
    exact BitVec.xor_self
  · intro r hr
    exact Function.update_of_ne hr _ _
  · rfl
  · rfl
  · exact (List.append_nil _).symm

/-- The loop goes on as long as its index has not been equal to `N`. -/
theorem runs_passes
    (haligned : ∀ r ∈ arrays, Aligned (s.regs r))
    (hfits : 8 * k < 2 ^ 64)
    (hne : ∀ j, 0 < j → j ≤ k → 8 * j ≠ argN s) :
    ∃ t, Runs (.running 0 s) (.running 4 t) ∧ Passed s k t := by
  induction k with
  | zero =>
      exact runs_start s
  | succ k ih =>
      obtain ⟨t, hruns, ht⟩ := ih (by omega) (fun j hj hjk => hne j hj (by omega))
      obtain ⟨u, hbody, hu⟩ := runs_body haligned ht
      obtain ⟨v, hcompare, hv⟩ := runs_compare hfits hu
      rw [if_neg (hne (k + 1) (Nat.succ_pos k) le_rfl)] at hcompare
      exact ⟨v, hruns.trans (hbody.trans hcompare), hv⟩

/-- When `N` is a positive multiple of eight the loop is left. -/
theorem runs_loop
    (haligned : ∀ r ∈ arrays, Aligned (s.regs r))
    (hN : argN s = 8 * (k + 1)) :
    ∃ t, Runs (.running 0 s) (.running 12 t) ∧ Passed s (k + 1) t := by
  have hlt : argN s < 2 ^ 64 := (s.regs .rdi).isLt
  obtain ⟨t, hruns, ht⟩ := runs_passes (k := k) haligned (by omega) (fun j _ _ => by omega)
  obtain ⟨u, hbody, hu⟩ := runs_body haligned ht
  obtain ⟨v, hcompare, hv⟩ := runs_compare (by omega) hu
  rw [if_pos hN.symm] at hcompare
  exact ⟨v, hruns.trans (hbody.trans hcompare), hv⟩

end Blocks

section Reduction

variable {t : State ℚ} {x : Fin 8 → ℚ}

/-- The lanes of `ymm1` after the three horizontal additions. -/
def folded
    (x : Fin 8 → ℚ) :
    Fin 8 → ℚ :=
  let pairs := hadd (upperSingles x) x
  let quarters := hadd pairs pairs
  hadd quarters quarters

theorem folded_zero
    (x : Fin 8 → ℚ) :
    folded x 0 = ∑ i, x i := by
  show ((x 4 + x 5) + (x 6 + x 7)) + ((x 0 + x 1) + (x 2 + x 3)) = _
  rw [Fin.sum_univ_eight]
  ring

/-- The lanes of the accumulator are folded into one sum. -/
theorem runs_fold
    (hx : t.ymm 2 = singles x) :
    ∃ u, Runs (.running 12 t) (.running 17 u) ∧ u.regs = t.regs ∧ u.mem = t.mem ∧
      u.accesses = t.accesses ∧ u.ymm 1 = singles (folded x) := by
  let upper := upperSingles x
  let t₁ := t.setVec 0 (singles x)
  let t₂ := t₁.setVec 1 (singles upper)
  let t₃ := t₂.setVec 1 (singles (hadd upper x))
  let t₄ := t₃.setVec 1 (singles (hadd (hadd upper x) (hadd upper x)))
  have hmove : exec (L := Label) (.vmovaps 0 2) t = some (t₁, .next) := by
    rw [exec, hx]
  have hextract : exec (L := Label) (.vextractf128 1 0 1) t₁ = some (t₂, .next) := by
    show some (t₁.setVec 1 (Vec.half (singles x) true), _) = _
    rw [half_singles]
  have hfold : exec (L := Label) (.haddps 1 0) t₂ = some (t₃, .next) := exec_haddps rfl rfl
  have hfold' : exec (L := Label) (.haddps 1 1) t₃ = some (t₄, .next) := exec_haddps rfl rfl
  have hfold'' : exec (L := Label) (.haddps 1 1) t₄ =
      some (t₄.setVec 1 (singles (folded x)), .next) :=
    exec_haddps rfl rfl
  exact ⟨_, (Assembly.Runs.next rfl hmove).trans ((Assembly.Runs.next rfl hextract).trans
    ((Assembly.Runs.next rfl hfold).trans ((Assembly.Runs.next rfl hfold').trans
      (Assembly.Runs.next rfl hfold'')))), rfl, rfl, rfl, rfl⟩

/-- The sum is divided by `N`, converted as a signed number. -/
theorem runs_divide
    (hx : t.ymm 1 = singles x)
    (hN : ((t.regs .rdi).toInt : ℚ) ≠ 0) :
    ∃ u, Runs (.running 17 t) (.returned () u) ∧ u.mem = t.mem ∧ u.accesses = t.accesses ∧
      Vec.double? (u.ymm 0) = some (x 0 / (t.regs .rdi).toInt) := by
  let t₁ := t.setVec 0 (Vec.withDouble (t.ymm 0) ((t.regs .rdi).toInt : ℚ))
  let t₂ := t₁.setVec 1 (Vec.withDouble (t.ymm 1) (x 0))
  have hconvert : exec (L := Label) (.vcvtss2sd 1 1 1) t₁ = some (t₂, .next) :=
    exec_vcvtss2sd (congrFun hx 0)
  have hdivide : exec (L := Label) (.vdivsd 0 1 0) t₂ =
      some (t₂.setVec 0 (Vec.withDouble (t₂.ymm 1) (x 0 / (t.regs .rdi).toInt)), .next) :=
    exec_vdivsd rfl rfl hN
  exact ⟨_, (Assembly.Runs.next rfl rfl).trans ((Assembly.Runs.next rfl hconvert).trans
    ((Assembly.Runs.next rfl hdivide).trans (Assembly.Runs.leave rfl rfl))), rfl, rfl,
    double?_withDouble _ _⟩

end Reduction

section Whole

variable {s : State ℚ} {k : Nat}

/-- The arrays of `N` elements end where the address space does or before. -/
def Fits
    (s : State ℚ) :
    Prop :=
  ∀ r ∈ arrays, (s.regs r).toNat + 4 * argN s ≤ 2 ^ 64

/-- What the routine leaves when it returns after `k` passes. -/
structure Returned
    (s : State ℚ)
    (k : Nat)
    (t : State ℚ) : Prop where
  mem : t.mem = memAfter s k
  accesses : t.accesses = s.accesses ++ (List.range k).flatMap (blockAccesses s)
  result : Vec.double? (t.ymm 0) = some ((∑ i, accumulated s k i) / argN s)

theorem toInt_argN
    (hfits : Fits s) :
    (s.regs .rdi).toInt = argN s := by
  have hle := hfits .rsi (by decide)
  rw [BitVec.toInt_eq_toNat_of_lt (by unfold argN at hle; omega)]
  rfl

/-- With a positive multiple of eight and aligned arrays the routine returns. -/
theorem runs_whole
    (hfits : Fits s)
    (haligned : ∀ r ∈ arrays, Aligned (s.regs r))
    (hN : argN s = 8 * (k + 1)) :
    ∃ t, Runs (.running 0 s) (.returned () t) ∧ Returned s (k + 1) t := by
  obtain ⟨t₁, hloop, h₁⟩ := runs_loop haligned hN
  obtain ⟨t₂, hfold, hregs, hmem, haccesses, hlanes⟩ := runs_fold h₁.accumulator
  have hint : (t₂.regs .rdi).toInt = argN s := by
    rw [hregs, h₁.others .rdi (by decide)]
    exact toInt_argN hfits
  have hne : ((t₂.regs .rdi).toInt : ℚ) ≠ 0 := by
    rw [hint]
    norm_cast
    omega
  obtain ⟨t₃, hdivide, hmem', haccesses', hresult⟩ := runs_divide hlanes hne
  refine ⟨t₃, hloop.trans (hfold.trans hdivide), ?_⟩
  constructor
  · rw [hmem', hmem, h₁.mem]
  · rw [haccesses', haccesses, h₁.accesses]
  · rw [hresult, folded_zero, hint]
    norm_cast

end Whole

section Separate

/-- Three arrays of `n` elements at the addresses 4096, 8192 and 12288. -/
def separate
    (n : BitVec 64)
    (mem : Memory ℚ) :
    State ℚ :=
  entry
    (fun r =>
      match r with
      | .rdi => n
      | .rsi => 4096
      | .rdx => 8192
      | .rcx => 12288
      | _ => 0)
    none (fun _ => singles 0) mem

theorem fits_separate
    {n : BitVec 64}
    (mem : Memory ℚ)
    (hn : n.toNat ≤ 1024) :
    Fits (separate n mem) := by
  intro r hr
  have harg : argN (separate n mem) = n.toNat := rfl
  simp only [arrays, List.mem_cons, List.not_mem_nil, or_false] at hr
  rcases hr with rfl | rfl | rfl
  · show 4096 + 4 * argN (separate n mem) ≤ 2 ^ 64
    omega
  · show 8192 + 4 * argN (separate n mem) ≤ 2 ^ 64
    omega
  · show 12288 + 4 * argN (separate n mem) ≤ 2 ^ 64
    omega

theorem aligned_separate
    (n : BitVec 64)
    (mem : Memory ℚ) :
    ∀ r ∈ arrays, Aligned ((separate n mem).regs r) := by
  intro r hr
  simp only [arrays, List.mem_cons, List.not_mem_nil, or_false] at hr
  rcases hr with rfl | rfl | rfl
  · exact (by decide : Aligned 4096)
  · exact (by decide : Aligned 8192)
  · exact (by decide : Aligned 12288)

end Separate

end Intro64
end AvxX86
end OsSeminars
