import OsSeminars.Foundation.A64

/-!
# 05-arm-asm-stack/data-section

`func` adds 15 to the variable `c_defined` of the C file and returns its sum with
`asm_defined`. Both variables have four bytes, but `func` loads and stores eight,
so a carry out of `c_defined` goes into the four bytes behind it.
-/

namespace OsSeminars
namespace ArmAsm
namespace DataSection

open Foundation

/-- The variables that `func` names. -/
inductive Symbol where
  | asmDefined
  | cDefined
deriving DecidableEq

inductive Label where
  | func
deriving DecidableEq

/-- `data-section.S`. -/
def func : List (Assembly.Line Label (A64.Instr Symbol)) :=
  [ .label .func,
    .instr (.adr 3 .asmDefined),
    .instr (.ldr 0 3),
    .instr (.adr 4 .cDefined),
    .instr (.ldr 1 4),
    .instr (.addImm 1 1 15),
    .instr (.str 1 4),
    .instr (.add 0 0 1),
    .instr .ret ]

/-- A run of `func`, with the addresses of the variables. -/
abbrev Runs
    (address : Symbol → BitVec 64) :
    Assembly.Config A64.State (BitVec 64) → Assembly.Config A64.State (BitVec 64) → Prop :=
  Assembly.Runs (A64.exec address) func

/-- The value of a variable of type `int`, read as unsigned. -/
def int
    (address : Symbol → BitVec 64)
    (symbol : Symbol)
    (s : A64.State) :
    Nat :=
  s.mem.load (address symbol) 4

/-- What the C declarations promise of a call that takes the state `s` to `t`. -/
structure Meets
    (address : Symbol → BitVec 64)
    (s t : A64.State) : Prop where
  cDefined : int address .cDefined t = (int address .cDefined s + 15) % 2 ^ 32
  result :
    (t.low 0).toNat = (int address .asmDefined s + int address .cDefined t) % 2 ^ 32
  others : ∀ b, ¬ InRange (address .cDefined) 4 b → t.mem b = s.mem b

/-- The 64 bits that `func` stores. -/
def stored
    (address : Symbol → BitVec 64)
    (s : A64.State) :
    BitVec 64 :=
  BitVec.ofNat 64 (s.mem.load (address .cDefined) 8) + 15#64

section Call

variable (address : Symbol → BitVec 64) (s : A64.State)

/-- What a call of `func` leaves in `x0` and in the memory. -/
theorem runs_func :
    ∃ t, Runs address (.running 0 s) (.returned (s.regs 30) t) ∧
      t.regs 0 =
        BitVec.ofNat 64 (s.mem.load (address .asmDefined) 8) + stored address s ∧
      t.mem = s.mem.store (address .cDefined) 8 (stored address s).toNat := by
  let body : List (A64.Instr Symbol) :=
    [.adr 3 .asmDefined, .ldr 0 3, .adr 4 .cDefined, .ldr 1 4, .addImm 1 1 15, .str 1 4,
      .add 0 0 1]
  have hlabel : Runs address (.running 0 s) (.running 1 s) :=
    Assembly.Runs.label rfl
  have hbody : Runs address (.running 1 s) _ :=
    Assembly.Runs.block body ⟨_, rfl⟩ rfl
  exact ⟨_, hlabel.trans (hbody.trans (Assembly.Runs.leave rfl rfl)), rfl, rfl⟩

/-- The stored number is the sum of 15 and both words, modulo `2 ^ 64`. -/
theorem toNat_stored :
    (stored address s).toNat =
      (int address .cDefined s + 2 ^ 32 * s.mem.load (address .cDefined + 4#64) 4 + 15) %
        2 ^ 64 := by
  have hsplit := ByteMemory.load_add s.mem (address .cDefined) 4 4
  simp only [stored, int, BitVec.toNat_add, BitVec.toNat_ofNat]
  norm_num at hsplit ⊢
  rw [hsplit]

/-- The four bytes of `c_defined` receive the sum. -/
theorem load_stored :
    (s.mem.store (address .cDefined) 8 (stored address s).toNat).load (address .cDefined) 4 =
      (int address .cDefined s + 15) % 2 ^ 32 := by
  rw [ByteMemory.load_store_low (by decide) (by decide), toNat_stored]
  omega

/-- The four bytes behind `c_defined` receive the high half. -/
theorem load_stored_behind :
    (s.mem.store (address .cDefined) 8 (stored address s).toNat).load
        (address .cDefined + 4#64) 4 =
      (stored address s).toNat / 2 ^ 32 := by
  have hlt := (stored address s).isLt
  have hload := ByteMemory.load_store_part (m := s.mem) (a := address .cDefined) (n := 8)
    (v := (stored address s).toNat) (i := 4) (k := 4) (by decide) (by decide)
  refine hload.trans ?_
  omega

/-- The bytes behind `c_defined` survive if and only if nothing is carried into them. -/
theorem others_unchanged_iff :
    (∀ b, ¬ InRange (address .cDefined) 4 b →
        s.mem.store (address .cDefined) 8 (stored address s).toNat b = s.mem b) ↔
      int address .cDefined s + 15 < 2 ^ 32 := by
  have hbehind := load_stored_behind address s
  have hstored := toNat_stored address s
  have hlow : int address .cDefined s < 2 ^ 32 := ByteMemory.load_lt _ _ 4
  have hhigh : s.mem.load (address .cDefined + 4#64) 4 < 2 ^ 32 := ByteMemory.load_lt _ _ 4
  constructor
  · intro hothers
    have hapart : Apart (address .cDefined + 4#64) 4 (address .cDefined) 4 := by
      have h := apart_of_parts (p := address .cDefined) (i := 4) (n := 4) (j := 0) (k := 4)
        (Or.inr (by decide)) (by decide) (by decide)
      rwa [BitVec.add_zero] at h
    rw [ByteMemory.load_congr (fun b hb => hothers b (hapart b hb))] at hbehind
    omega
  · intro hcarry b hb
    by_cases hin : InRange (address .cDefined) 8 b
    · -- the address lies in the four bytes behind the variable
      have hin' : InRange (address .cDefined + 4#64) 4 b := by
        obtain ⟨i, hi, rfl⟩ := exists_of_inRange hin
        by_cases hi4 : i < 4
        · exact absurd (inRange_add hi4 (by decide)) hb
        · obtain ⟨j, rfl⟩ := Nat.exists_eq_add_of_le (Nat.not_lt.mp hi4)
          rw [BitVec.ofNat_add, ← BitVec.add_assoc]
          exact inRange_add (by omega) (by decide)
      refine ByteMemory.eq_of_load_eq ?_ hin'
      rw [hbehind]
      omega
    · exact ByteMemory.store_outside hin

end Call

/--
A call of `func` returns, and it does what the C declarations promise if and only
if adding 15 to `c_defined`, read as an unsigned number, does not carry.
-/
theorem func_meets_iff
    (address : Symbol → BitVec 64)
    (s : A64.State) :
    ∃ t, Runs address (.running 0 s) (.returned (s.regs 30) t) ∧
      (Meets address s t ↔ int address .cDefined s + 15 < 2 ^ 32) := by
  obtain ⟨t, hrun, hregs, hmem⟩ := runs_func address s
  refine ⟨t, hrun, ?_⟩
  rw [← others_unchanged_iff address s, ← hmem]
  constructor
  · intro h
    exact h.others
  · intro hothers
    have hint : int address .cDefined t = (int address .cDefined s + 15) % 2 ^ 32 := by
      rw [int, hmem]
      exact load_stored address s
    refine ⟨hint, ?_, hothers⟩
    have hsplit := ByteMemory.load_add s.mem (address .asmDefined) 4 4
    have hasm : s.mem.load (address .asmDefined) 8 =
        int address .asmDefined s + 2 ^ 32 * s.mem.load (address .asmDefined + 4#64) 4 :=
      hsplit
    rw [hint, A64.State.low, hregs, BitVec.toNat_setWidth, BitVec.toNat_add, toNat_stored,
      BitVec.toNat_ofNat, hasm]
    omega

/-- `c_defined` is -1, at address 0, and everything else is zero. -/
def minusOne : A64.State where
  regs := fun _ => 0
  mem := fun b => if InRange 0#64 4 b then 255 else 0

def address : Symbol → BitVec 64
  | .cDefined => 0
  | .asmDefined => 16

/-- The call increments the byte behind `c_defined`. -/
theorem not_func_meets_minusOne :
    ∃ t, Runs address (.running 0 minusOne) (.returned 0 t) ∧
      t.mem 4 ≠ minusOne.mem 4 ∧ ¬ Meets address minusOne t := by
  obtain ⟨t, hrun, -, hmem⟩ := runs_func address minusOne
  have hchanged : t.mem 4 ≠ minusOne.mem 4 := by
    rw [hmem]
    decide
  exact ⟨t, hrun, hchanged, fun h => hchanged (h.others 4 (by decide))⟩

end DataSection
end ArmAsm
end OsSeminars
