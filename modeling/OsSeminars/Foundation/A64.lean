import OsSeminars.Foundation.Assembly
import OsSeminars.Foundation.ByteMemory

/-!
# Foundation: a fragment of the A64 instruction set

The machine has the registers `x0` to `x30` and a little-endian memory. Symbols
have the addresses that the linker gives them. `ret` returns to the address in
`x30`.
-/

namespace OsSeminars
namespace Foundation
namespace A64

universe u v

/-- The registers `x0` to `x30`. -/
abbrev Reg : Type :=
  Fin 31

/-- The state of the machine. -/
structure State where
  regs : Reg → BitVec 64
  mem : ByteMemory 64

/-- The low half `w` of a register. -/
def State.low
    (s : State)
    (r : Reg) :
    BitVec 32 :=
  (s.regs r).setWidth 32

/-- Write a register. -/
def State.set
    (s : State)
    (r : Reg)
    (v : BitVec 64) :
    State :=
  { s with regs := Function.update s.regs r v }

/-- The instructions, with 64-bit operands. -/
inductive Instr
    (S : Type u)
  | adr (d : Reg) (symbol : S)
  | ldr (t n : Reg)
  | str (t n : Reg)
  | addImm (d n : Reg) (imm : BitVec 64)
  | add (d n m : Reg)
  | ret
deriving DecidableEq

variable {S : Type u} {L : Type v}

/-- Execute an instruction. -/
def exec
    (address : S → BitVec 64) :
    Instr S → State → Option (State × Assembly.Flow L (BitVec 64))
  | .adr d symbol, s => some (s.set d (address symbol), .next)
  | .ldr t n, s => some (s.set t (BitVec.ofNat 64 (s.mem.load (s.regs n) 8)), .next)
  | .str t n, s =>
      some ({ s with mem := s.mem.store (s.regs n) 8 (s.regs t).toNat }, .next)
  | .addImm d n imm, s => some (s.set d (s.regs n + imm), .next)
  | .add d n m, s => some (s.set d (s.regs n + s.regs m), .next)
  | .ret, s => some (s, .leave (s.regs (Fin.last 30)))

end A64
end Foundation
end OsSeminars
