import OsSeminars.Foundation.Assembly
import OsSeminars.Foundation.ByteMemory
import OsSeminars.Foundation.X64Scalar

/-!
# Foundation: a fragment of the x86-64 instruction set

The state has the registers, the flags and the memory, and it records which
addresses the instructions access and which functions they call.

What is not part of a routine is its environment: the addresses of its symbols,
the functions it calls and the kernel. A called function is a single step that
gives new registers and a new memory, as a system call does. The address that a
call pushes depends on where the code lies and is chosen by the environment as
well. Flags that an instruction or a called function leaves undefined are `none`,
and a conditional jump cannot read them.
-/

namespace OsSeminars
namespace Foundation
namespace X64

universe u v

/-- An access to the memory: its first address and the number of bytes. -/
inductive Access where
  | read (a : BitVec 64) (n : Nat)
  | write (a : BitVec 64) (n : Nat)
deriving DecidableEq

structure State (S : Type u) where
  regs : Registers
  flags : Option Flags
  mem : ByteMemory 64
  accesses : List Access
  /-- the called functions, each with the registers at its call -/
  calls : List (S × Registers)

/-- What surrounds a routine. -/
structure Env (S : Type u) where
  address : S → BitVec 64
  link : State S → BitVec 64
  call : S → State S → Registers × ByteMemory 64
  syscall : State S → Registers × ByteMemory 64

/-- The instructions. Memory operands are given by their base register. -/
inductive Instr
    (S : Type u)
    (L : Type v)
  | mov (d r : Reg)
  | movImm (d : Reg) (v : BitVec 64)
  | mov32Imm (d : Reg) (v : BitVec 32)
  | load (d base : Reg)
  | loadSymbol (d : Reg) (x : S)
  | lea (d : Reg) (x : S)
  | movslq (d base index : Reg)
  | addImm (d : Reg) (v : BitVec 64)
  | subImm (d : Reg) (v : BitVec 64)
  | add32 (d base : Reg)
  | sub32 (d base : Reg)
  | inc (d : Reg)
  | dec32 (d : Reg)
  | imul (r : Reg)
  | cmp (r r' : Reg)
  | cmp32Imm (r : Reg) (v : BitVec 32)
  | push (r : Reg)
  | pop (r : Reg)
  | jump (l : L)
  | jumpIf (c : Cond) (l : L)
  | call (x : S)
  | syscall
  | ret
deriving DecidableEq

variable {S : Type u} {L : Type v}

namespace State

/-- The low half of a register. -/
def low
    (s : State S)
    (r : Reg) :
    BitVec 32 :=
  (s.regs r).setWidth 32

/-- Write a register. -/
def set
    (s : State S)
    (r : Reg)
    (v : BitVec 64) :
    State S :=
  { s with regs := Function.update s.regs r v }

/-- Writing the low half of a register clears its high half. -/
def setLow
    (s : State S)
    (r : Reg)
    (v : BitVec 32) :
    State S :=
  s.set r (v.setWidth 64)

def setFlags
    (s : State S)
    (f : Option Flags) :
    State S :=
  { s with flags := f }

/-- Record a read. -/
def noteRead
    (s : State S)
    (a : BitVec 64)
    (n : Nat) :
    State S :=
  { s with accesses := s.accesses ++ [.read a n] }

def store
    (s : State S)
    (a : BitVec 64)
    (v : BitVec 64) :
    State S :=
  { s with
    mem := s.mem.store a 8 v.toNat
    accesses := s.accesses ++ [.write a 8] }

/-- The 32-bit word at an address. -/
def word32
    (s : State S)
    (a : BitVec 64) :
    BitVec 32 :=
  BitVec.ofNat 32 (s.mem.load a 4)

/-- The 64-bit word at an address. -/
def word64
    (s : State S)
    (a : BitVec 64) :
    BitVec 64 :=
  BitVec.ofNat 64 (s.mem.load a 8)

theorem load_eq_of_word64
    {s t : State S}
    {a : BitVec 64}
    (h : s.word64 a = t.word64 a) :
    s.mem.load a 8 = t.mem.load a 8 := by
  have hs : s.mem.load a 8 < 2 ^ 64 := ByteMemory.load_lt _ _ 8
  have ht : t.mem.load a 8 < 2 ^ 64 := ByteMemory.load_lt _ _ 8
  have hval := congrArg BitVec.toNat h
  rw [word64, word64, BitVec.toNat_ofNat, BitVec.toNat_ofNat] at hval
  rwa [Nat.mod_eq_of_lt hs, Nat.mod_eq_of_lt ht] at hval

/-- Push a word on the stack. -/
def push
    (s : State S)
    (v : BitVec 64) :
    State S :=
  (s.store (s.regs .rsp - 8) v).set .rsp (s.regs .rsp - 8)

/-- Pop a word from the stack into a register. -/
def pop
    (s : State S)
    (r : Reg) :
    State S :=
  ((s.noteRead (s.regs .rsp) 8).set .rsp (s.regs .rsp + 8)).set r (s.word64 (s.regs .rsp))

/-- What code outside the routine has done. -/
def afterOutside
    (s : State S)
    (effect : Registers × ByteMemory 64) :
    State S :=
  { s with
    regs := effect.1
    flags := none
    mem := effect.2 }

end State

/-- Execute an instruction; `ret` leaves with the address it returns to. -/
def exec
    (env : Env S) :
    Instr S L → State S → Option (State S × Assembly.Flow L (BitVec 64))
  | .mov d r, s => some (s.set d (s.regs r), .next)
  | .movImm d v, s => some (s.set d v, .next)
  | .mov32Imm d v, s => some (s.setLow d v, .next)
  | .load d base, s =>
      some ((s.noteRead (s.regs base) 8).set d (s.word64 (s.regs base)), .next)
  | .loadSymbol d x, s =>
      some ((s.noteRead (env.address x) 8).set d (s.word64 (env.address x)), .next)
  | .lea d x, s => some (s.set d (env.address x), .next)
  | .movslq d base index, s =>
      let a := s.regs base + s.regs index * 4
      some ((s.noteRead a 4).set d ((s.word32 a).signExtend 64), .next)
  | .addImm d v, s =>
      some ((s.set d (s.regs d + v)).setFlags (some (addFlags (s.regs d) v)), .next)
  | .subImm d v, s =>
      some ((s.set d (s.regs d - v)).setFlags (some (subFlags (s.regs d) v)), .next)
  | .add32 d base, s =>
      let a := s.regs base
      some (((s.noteRead a 4).setLow d (s.low d + s.word32 a)).setFlags
        (some (addFlags (s.low d) (s.word32 a))), .next)
  | .sub32 d base, s =>
      let a := s.regs base
      some (((s.noteRead a 4).setLow d (s.low d - s.word32 a)).setFlags
        (some (subFlags (s.low d) (s.word32 a))), .next)
  | .inc d, s =>
      some ((s.set d (s.regs d + 1)).setFlags (some (addFlags (s.regs d) 1#64)), .next)
  | .dec32 d, s =>
      some ((s.setLow d (s.low d - 1)).setFlags (some (subFlags (s.low d) 1#32)), .next)
  | .imul r, s =>
      let product := (s.regs .rax).toInt * (s.regs r).toInt
      some (((s.set .rax (BitVec.ofInt 64 product)).set .rdx
        (BitVec.ofInt 64 (product / 2 ^ 64))).setFlags none, .next)
  | .cmp r r', s => some (s.setFlags (some (subFlags (s.regs r) (s.regs r'))), .next)
  | .cmp32Imm r v, s => some (s.setFlags (some (subFlags (s.low r) v)), .next)
  | .push r, s => some (s.push (s.regs r), .next)
  | .pop r, s => some (s.pop r, .next)
  | .jump l, s => some (s, .jump l)
  | .jumpIf c l, s =>
      match s.flags with
      | none => none
      | some f => some (s, if c.holds f then .jump l else .next)
  | .call x, s =>
      let entered := { s.push (env.link s) with calls := s.calls ++ [(x, s.regs)] }
      some (entered.afterOutside (env.call x entered), .next)
  | .syscall, s => some (s.afterOutside (env.syscall s), .next)
  | .ret, s =>
      some ((s.noteRead (s.regs .rsp) 8).set .rsp (s.regs .rsp + 8),
        .leave (s.word64 (s.regs .rsp)))

section Jumps

variable {env : Env S} {s : State S} {f : Flags} {c : Cond} {l : L}

theorem exec_jumpIf_of_holds
    (hflags : s.flags = some f)
    (h : c.holds f = true) :
    exec env (.jumpIf c l) s = some (s, .jump l) := by
  simp only [exec, hflags, h, if_true]

theorem exec_jumpIf_of_not_holds
    (hflags : s.flags = some f)
    (h : c.holds f = false) :
    exec env (.jumpIf c l) s = some (s, .next) := by
  simp only [exec, hflags, h, Bool.false_eq_true, if_false]

end Jumps

end X64
end Foundation
end OsSeminars
