import Mathlib.Algebra.Field.Defs
import Mathlib.Algebra.Group.Pi.Basic
import Mathlib.Data.Fin.VecNotation
import Mathlib.Data.Int.Cast.Defs
import Mathlib.Tactic.FinCases
import OsSeminars.Foundation.Assembly
import OsSeminars.Foundation.Memory
import OsSeminars.Foundation.X64Scalar

/-!
# Foundation: a fragment of AVX with exact numbers

The vector registers have eight lanes of 32 bits. A lane holds a number of single
precision or one half of a number of double precision. Arithmetic is exact, in
any field, and an instruction that would read a lane as what it does not hold has
no result.

The memory is seen through instructions that access 32 bytes at an address
divisible by 32, and other addresses are a fault. So it is modelled as an array
of singles: the cell `c` has the bytes from `4 * c` on. Every access is recorded
with its base register and its address.
-/

namespace OsSeminars
namespace Foundation
namespace Avx

open X64 (Registers Flags Cond Reg)

universe u v

/-- What 32 bits of a vector register hold. -/
inductive Lane (K : Type u) where
  | single (x : K)
  | doubleLow (x : K)
  | doubleHigh (x : K)

/-- The contents of a vector register. -/
abbrev Vec (K : Type u) : Type u :=
  Fin 8 → Lane K

/-- Eight singles. -/
def singles
    {K : Type u}
    (x : Fin 8 → K) :
    Vec K :=
  fun i => .single (x i)

structure Access where
  isStore : Bool
  base : Reg
  address : BitVec 64
deriving DecidableEq

structure State (K : Type u) where
  regs : Registers
  flags : Option Flags
  ymm : Fin 16 → Vec K
  mem : Memory K
  accesses : List Access

/-- The instructions. The operand of a memory access is `[base + index * 4]`. -/
inductive Instr (L : Type v) where
  | xor (d r : Reg)
  | addImm (d : Reg) (v : BitVec 64)
  | cmp (r r' : Reg)
  | jumpIf (c : Cond) (l : L)
  | vxorpd (d a b : Fin 16)
  | vmovapsLoad (d : Fin 16) (base index : Reg)
  | vmovapsStore (base index : Reg) (r : Fin 16)
  | vmovaps (d r : Fin 16)
  | vaddps (d a b : Fin 16)
  | vextractf128 (d r : Fin 16) (imm : BitVec 8)
  | haddps (d r : Fin 16)
  | vcvtsi2sd (d a : Fin 16) (r : Reg)
  | vcvtss2sd (d a b : Fin 16)
  | vdivsd (d a b : Fin 16)
  | ret
deriving DecidableEq

section Lanes

variable {K : Type u}

/-- The single in a lane. -/
def Lane.single? :
    Lane K → Option K
  | .single x => some x
  | .doubleLow _ => none
  | .doubleHigh _ => none

/-- All lanes as singles. -/
def Vec.singles?
    (v : Vec K) :
    Option (Fin 8 → K) := do
  let x₀ ← (v 0).single?
  let x₁ ← (v 1).single?
  let x₂ ← (v 2).single?
  let x₃ ← (v 3).single?
  let x₄ ← (v 4).single?
  let x₅ ← (v 5).single?
  let x₆ ← (v 6).single?
  let x₇ ← (v 7).single?
  return ![x₀, x₁, x₂, x₃, x₄, x₅, x₆, x₇]

/-- The four lowest lanes as singles. -/
def Vec.lowSingles?
    (v : Vec K) :
    Option (Fin 4 → K) := do
  let x₀ ← (v 0).single?
  let x₁ ← (v 1).single?
  let x₂ ← (v 2).single?
  let x₃ ← (v 3).single?
  return ![x₀, x₁, x₂, x₃]

/-- The double in the two lowest lanes. -/
def Vec.double?
    [DecidableEq K]
    (v : Vec K) :
    Option K :=
  match v 0, v 1 with
  | .doubleLow x, .doubleHigh y => if x = y then some x else none
  | _, _ => none

/-- Put a double into the lowest lanes, keep the next two and clear the upper half. -/
def Vec.withDouble
    [Zero K]
    (v : Vec K)
    (x : K) :
    Vec K :=
  ![.doubleLow x, .doubleHigh x, v 2, v 3, .single 0, .single 0, .single 0, .single 0]

/-- Put the sums of neighbouring lanes into the lowest four lanes, the first two
from `x` and the next two from `y`. -/
def Vec.withPairs
    [Add K]
    (v : Vec K)
    (x y : Fin 4 → K) :
    Vec K :=
  ![.single (x 0 + x 1), .single (x 2 + x 3), .single (y 0 + y 1), .single (y 2 + y 3),
    v 4, v 5, v 6, v 7]

/-- One half of a vector, the upper half of the result cleared. -/
def Vec.half
    [Zero K]
    (v : Vec K)
    (upper : Bool) :
    Vec K :=
  fun i =>
    if hi : i.val < 4 then v ⟨4 * upper.toNat + i.val, by cases upper <;> simp <;> omega⟩
    else .single 0

/-- The upper half of eight singles, in the lowest four lanes. -/
def upperSingles
    [Zero K]
    (x : Fin 8 → K) :
    Fin 8 → K :=
  ![x 4, x 5, x 6, x 7, 0, 0, 0, 0]

@[simp] theorem singles?_singles
    (x : Fin 8 → K) :
    Vec.singles? (singles x) = some x := by
  have heta : ![x 0, x 1, x 2, x 3, x 4, x 5, x 6, x 7] = x := by
    funext i
    fin_cases i <;> rfl
  exact congrArg some heta

@[simp] theorem lowSingles?_singles
    (x : Fin 8 → K) :
    Vec.lowSingles? (singles x) = some ![x 0, x 1, x 2, x 3] :=
  rfl

theorem half_singles
    [Zero K]
    (x : Fin 8 → K) :
    Vec.half (singles x) true = singles (upperSingles x) := by
  funext i
  fin_cases i <;> rfl

@[simp] theorem double?_withDouble
    [DecidableEq K]
    [Zero K]
    (v : Vec K)
    (x : K) :
    Vec.double? (Vec.withDouble v x) = some x := by
  show (if x = x then some x else none) = some x
  rw [if_pos rfl]

end Lanes

section Machine

variable {K : Type u} {L : Type v}

/-- The address `[base + index * 4]`. -/
def State.operand
    (s : State K)
    (base index : Reg) :
    BitVec 64 :=
  s.regs base + s.regs index * 4

def State.set
    (s : State K)
    (r : Reg)
    (v : BitVec 64) :
    State K :=
  { s with regs := Function.update s.regs r v }

def State.setVec
    (s : State K)
    (d : Fin 16)
    (v : Vec K) :
    State K :=
  { s with ymm := Function.update s.ymm d v }

def State.setFlags
    (s : State K)
    (f : Flags) :
    State K :=
  { s with flags := some f }

/-- Record an access. -/
def State.note
    (s : State K)
    (a : Access) :
    State K :=
  { s with accesses := s.accesses ++ [a] }

/-- The first cell of the 32 bytes at an address. -/
def cell
    (a : BitVec 64) :
    Nat :=
  a.toNat / 4

/-- The eight singles from a cell on. -/
def loadVec
    (m : Memory K)
    (c : Nat) :
    Fin 8 → K :=
  fun i => m (c + i)

/-- Addresses that the aligned moves accept. -/
def Aligned
    (a : BitVec 64) :
    Prop :=
  a.toNat % 32 = 0

instance
    (a : BitVec 64) :
    Decidable (Aligned a) :=
  inferInstanceAs (Decidable (_ = _))

/-- Execute an instruction. -/
def exec
    [Field K]
    [DecidableEq K] :
    Instr L → State K → Option (State K × Assembly.Flow L Unit)
  | .xor d r, s =>
      let v := s.regs d ^^^ s.regs r
      some ((s.set d v).setFlags
        { zero := decide (v = 0), sign := v.msb, overflow := false }, .next)
  | .addImm d v, s =>
      some ((s.set d (s.regs d + v)).setFlags (X64.addFlags (s.regs d) v), .next)
  | .cmp r r', s => some (s.setFlags (X64.subFlags (s.regs r) (s.regs r')), .next)
  | .jumpIf c l, s =>
      match s.flags with
      | none => none
      | some f => some (s, if c.holds f then .jump l else .next)
  | .vxorpd d a b, s =>
      -- only the idiom that clears a register has a meaning for exact numbers
      if a = b then some (s.setVec d (singles 0), .next) else none
  | .vmovapsLoad d base index, s =>
      let a := s.operand base index
      if Aligned a then
        some ((s.note ⟨false, base, a⟩).setVec d (singles (loadVec s.mem (cell a))), .next)
      else none
  | .vmovapsStore base index r, s =>
      let a := s.operand base index
      if Aligned a then
        match Vec.singles? (s.ymm r) with
        | none => none
        | some x =>
            some ({ s.note ⟨true, base, a⟩ with
              mem := s.mem.storeBlock (cell a) (List.ofFn x) }, .next)
      else none
  | .vmovaps d r, s => some (s.setVec d (s.ymm r), .next)
  | .vaddps d a b, s =>
      match Vec.singles? (s.ymm a), Vec.singles? (s.ymm b) with
      | some x, some y => some (s.setVec d (singles (x + y)), .next)
      | _, _ => none
  | .vextractf128 d r imm, s =>
      some (s.setVec d (Vec.half (s.ymm r) (imm.getLsbD 0)), .next)
  | .haddps d r, s =>
      match Vec.lowSingles? (s.ymm d), Vec.lowSingles? (s.ymm r) with
      | some x, some y => some (s.setVec d (Vec.withPairs (s.ymm d) x y), .next)
      | _, _ => none
  | .vcvtsi2sd d a r, s =>
      some (s.setVec d (Vec.withDouble (s.ymm a) ((s.regs r).toInt : K)), .next)
  | .vcvtss2sd d a b, s =>
      match (s.ymm b 0).single? with
      | none => none
      | some x => some (s.setVec d (Vec.withDouble (s.ymm a) x), .next)
  | .vdivsd d a b, s =>
      match Vec.double? (s.ymm a), Vec.double? (s.ymm b) with
      | some x, some y =>
          if y = 0 then none
          else some (s.setVec d (Vec.withDouble (s.ymm a) (x / y)), .next)
      | _, _ => none
  | .ret, s => some (s, .leave ())

end Machine

section Rules

variable {K : Type u} [Field K] [DecidableEq K] {L : Type v}
variable {s t : State K} {base index : Reg} {a b d : Fin 16} {x y : Fin 8 → K}

theorem exec_load
    (haligned : Aligned (s.operand base index)) :
    exec (L := L) (.vmovapsLoad d base index) s =
      some ((s.note ⟨false, base, s.operand base index⟩).setVec d
        (singles (loadVec s.mem (cell (s.operand base index)))), .next) :=
  if_pos haligned

/-- A load of an address that is not aligned is a fault. -/
theorem exec_load_fault
    (haligned : ¬ Aligned (s.operand base index)) :
    exec (L := L) (.vmovapsLoad d base index) s = none :=
  if_neg haligned

theorem exec_store
    (haligned : Aligned (s.operand base index))
    (hx : s.ymm a = singles x) :
    exec (L := L) (.vmovapsStore base index a) s =
      some ({ s.note ⟨true, base, s.operand base index⟩ with
        mem := s.mem.storeBlock (cell (s.operand base index)) (List.ofFn x) }, .next) := by
  simp only [exec, if_pos haligned, hx, singles?_singles]

theorem exec_store_fault
    (haligned : ¬ Aligned (s.operand base index)) :
    exec (L := L) (.vmovapsStore base index a) s = none :=
  if_neg haligned

theorem exec_vaddps
    (hx : s.ymm a = singles x)
    (hy : s.ymm b = singles y) :
    exec (L := L) (.vaddps d a b) s = some (s.setVec d (singles (x + y)), .next) := by
  simp only [exec, hx, hy, singles?_singles]

/-- The lanes of `haddps` when both registers hold singles. -/
def hadd
    (x y : Fin 8 → K) :
    Fin 8 → K :=
  ![x 0 + x 1, x 2 + x 3, y 0 + y 1, y 2 + y 3, x 4, x 5, x 6, x 7]

theorem exec_haddps
    (hx : s.ymm d = singles x)
    (hy : s.ymm a = singles y) :
    exec (L := L) (.haddps d a) s = some (s.setVec d (singles (hadd x y)), .next) := by
  have hlanes : Vec.withPairs (singles x) ![x 0, x 1, x 2, x 3] ![y 0, y 1, y 2, y 3] =
      singles (hadd x y) := by
    funext i
    fin_cases i <;> rfl
  simp only [exec, hx, hy, lowSingles?_singles, hlanes]

theorem exec_vcvtss2sd
    {z : K}
    (hz : s.ymm b 0 = .single z) :
    exec (L := L) (.vcvtss2sd d a b) s =
      some (s.setVec d (Vec.withDouble (s.ymm a) z), .next) := by
  simp only [exec, hz, Lane.single?]

theorem exec_vdivsd
    {p q : K}
    {v w : Vec K}
    (hp : s.ymm a = Vec.withDouble v p)
    (hq : s.ymm b = Vec.withDouble w q)
    (hne : q ≠ 0) :
    exec (L := L) (.vdivsd d a b) s =
      some (s.setVec d (Vec.withDouble (s.ymm a) (p / q)), .next) := by
  simp only [exec, hp, hq, double?_withDouble, if_neg hne]

omit [Field K] [DecidableEq K] in
/-- The lanes of the sum of two loads, as a list. -/
theorem ofFn_loadVec_add
    [Add K]
    (m : Memory K)
    (c c' : Nat) :
    List.ofFn (loadVec m c + loadVec m c') =
      List.zipWith (· + ·) (m.loadBlock c 8) (m.loadBlock c' 8) := by
  refine List.ext_getElem (by simp) (fun i _ _ => ?_)
  simp only [List.getElem_ofFn, Pi.add_apply, loadVec, Memory.loadBlock, List.getElem_zipWith,
    List.getElem_map, List.getElem_range]

/-- The record of accesses only grows. -/
theorem accesses_of_exec
    {i : Instr L}
    {flow : Assembly.Flow L Unit}
    (h : exec i s = some (t, flow)) :
    s.accesses <+: t.accesses := by
  cases i with
  | vmovapsLoad d base index =>
      simp only [exec] at h
      split at h
      · cases h
        exact List.prefix_append _ _
      · cases h
  | vmovapsStore base index r =>
      simp only [exec] at h
      split at h
      · split at h
        · cases h
        · cases h
          exact List.prefix_append _ _
      · cases h
  | jumpIf c l =>
      simp only [exec] at h
      split at h
      · cases h
      · cases h
        exact List.prefix_refl _
  | vxorpd d a b =>
      simp only [exec] at h
      split at h
      · cases h
        exact List.prefix_refl _
      · cases h
  | vaddps d a b =>
      simp only [exec] at h
      split at h
      · cases h
        exact List.prefix_refl _
      · cases h
  | haddps d r =>
      simp only [exec] at h
      split at h
      · cases h
        exact List.prefix_refl _
      · cases h
  | vcvtss2sd d a b =>
      simp only [exec] at h
      split at h
      · cases h
      · cases h
        exact List.prefix_refl _
  | vdivsd d a b =>
      simp only [exec] at h
      split at h
      · split at h
        · cases h
        · cases h
          exact List.prefix_refl _
      · cases h
  | xor | addImm | cmp | vmovaps | vextractf128 | vcvtsi2sd | ret =>
      cases h
      exact List.prefix_refl _

end Rules

end Avx
end Foundation
end OsSeminars
