import OsSeminars.Foundation.ByteMemory
import Mathlib.Logic.Relation

/-!
# Foundation: calls in A64 code

The machine has the registers `x0` to `x30`, the stack pointer, the program counter, a
little-endian memory, and the text that has been printed. `bl` leaves the address behind
it in `x30`, and `ret` goes to the address in `x30`, whoever has written it there.

An image is a piece of code at its address, with the addresses of its symbols. Code at
other addresses is known only as a function: it is what a callee has done to the machine
when it returns. `Returns` and `Keeps` are the parts of the calling convention that a
caller relies on. Both relate the states before and behind one call, so that nothing is
asked of a callee where it is not called.
-/

namespace OsSeminars
namespace Foundation
namespace A64Calls

universe u

/-- The general registers. -/
inductive Reg
  | x0 | x1 | x2 | x3 | x4 | x5 | x6 | x7
  | x8 | x9 | x10 | x11 | x12 | x13 | x14 | x15
  | x16 | x17 | x18 | x19 | x20 | x21 | x22 | x23
  | x24 | x25 | x26 | x27 | x28 | x29 | x30
deriving DecidableEq

/-- The link register. -/
abbrev link : Reg :=
  .x30

/-- The registers that a callee gives back as it found them. -/
def calleeSaved : List Reg :=
  [.x19, .x20, .x21, .x22, .x23, .x24, .x25, .x26, .x27, .x28, .x29]

/-- The registers of the arguments behind the first one. -/
def variadic : List Reg :=
  [.x1, .x2, .x3, .x4, .x5, .x6, .x7]

structure State where
  regs : Reg → BitVec 64
  sp : BitVec 64
  pc : BitVec 64
  mem : ByteMemory 64
  out : List UInt8

/-- Write a register. -/
def State.set
    (s : State)
    (r : Reg)
    (v : BitVec 64) :
    State :=
  { s with regs := Function.update s.regs r v }

/-- The instructions; the memory operands are relative to the stack pointer. -/
inductive Instr
    (S : Type u)
  | mov (d : Reg) (imm : BitVec 64)
  | adr (d : Reg) (symbol : S)
  | str (t : Reg) (offset : Nat)
  | ldr (t : Reg) (offset : Nat)
  | subSp (imm : Nat)
  | addSp (imm : Nat)
  | bl (symbol : S)
  | ret
deriving DecidableEq

variable {S : Type u}

/-- The instruction passes control to the next one. -/
def Instr.straight :
    Instr S → Bool
  | .bl _ => false
  | .ret => false
  | _ => true

/-- What an instruction does, but for the program counter. -/
def effect
    (address : S → BitVec 64) :
    Instr S → State → State
  | .mov d imm, s => s.set d imm
  | .adr d symbol, s => s.set d (address symbol)
  | .str t offset, s =>
      { s with mem := s.mem.store (s.sp + BitVec.ofNat 64 offset) 8 (s.regs t).toNat }
  | .ldr t offset, s =>
      s.set t (BitVec.ofNat 64 (s.mem.load (s.sp + BitVec.ofNat 64 offset) 8))
  | .subSp imm, s => { s with sp := s.sp - BitVec.ofNat 64 imm }
  | .addSp imm, s => { s with sp := s.sp + BitVec.ofNat 64 imm }
  | .bl _, s => s.set link (s.pc + 4)
  | .ret, s => s

/-- Where control goes. -/
def target
    (address : S → BitVec 64) :
    Instr S → State → BitVec 64
  | .bl symbol, _ => address symbol
  | .ret, s => s.regs link
  | _, s => s.pc + 4

def exec
    (address : S → BitVec 64)
    (i : Instr S)
    (s : State) :
    State :=
  { effect address i s with pc := target address i s }

/-- Code and what it refers to. -/
structure Image
    (S : Type u) where
  base : BitVec 64
  code : List (Instr S)
  address : S → BitVec 64
  callee : BitVec 64 → Option (State → State)

namespace Image

variable (image : Image S)

/-- The address of an instruction. -/
def line
    (i : Nat) :
    BitVec 64 :=
  image.base + BitVec.ofNat 64 (4 * i)

/-- The instruction at an address. -/
def fetch
    (pc : BitVec 64) :
    Option (Instr S) :=
  if (pc - image.base).toNat % 4 = 0 then image.code[(pc - image.base).toNat / 4]? else none

/-- One instruction, or the whole of a callee. -/
def step
    (s : State) :
    Option State :=
  match image.fetch s.pc with
  | some i => some (exec image.address i s)
  | none => (image.callee s.pc).map fun f => f s

/-- A finite run of the machine. -/
def Runs : State → State → Prop :=
  Relation.ReflTransGen fun s t => image.step s = some t

end Image

/-- A call that begins in `s` has returned in `t`, with the stack pointer as it was. -/
structure Returns
    (s t : State) :
    Prop where
  pc : t.pc = s.regs link
  sp : t.sp = s.sp

/-- The callee, with `args` bytes of arguments on the stack, has also kept `x19` to `x29`
and the next `frame` bytes of the stack. -/
structure Keeps
    (args frame : Nat)
    (s t : State) :
    Prop extends Returns s t where
  saved : ∀ r ∈ calleeSaved, t.regs r = s.regs r
  frame : ∀ b, InRange (s.sp + BitVec.ofNat 64 args) frame b → t.mem b = s.mem b

/-- The arguments of type `int` behind the first argument: seven are in registers, and
the others are on the stack. -/
def variadicInt
    (s : State)
    (k : Nat) :
    Int :=
  match variadic[k]? with
  | some r => ((s.regs r).setWidth 32).toInt
  | none =>
      (BitVec.ofNat 32
        (s.mem.load (s.sp + BitVec.ofNat 64 (8 * (k - variadic.length))) 4)).toInt

theorem ne_link_of_saved
    {r : Reg}
    (h : r ∈ calleeSaved) :
    r ≠ link := by
  rintro rfl
  exact absurd h (by decide)

section Fields

variable {address : S → BitVec 64} {i : Instr S} {s : State} {r d : Reg} {v : BitVec 64}

@[simp]
theorem regs_set_same :
    (s.set r v).regs r = v :=
  Function.update_self ..

theorem regs_set_of_ne
    (h : r ≠ d) :
    (s.set d v).regs r = s.regs r :=
  Function.update_of_ne h ..

@[simp]
theorem sp_set :
    (s.set r v).sp = s.sp :=
  rfl

@[simp]
theorem mem_set :
    (s.set r v).mem = s.mem :=
  rfl

@[simp]
theorem out_set :
    (s.set r v).out = s.out :=
  rfl

/-- Code that is not a call does not look at the program counter. -/
theorem effect_pc
    (h : i.straight = true)
    (pc : BitVec 64) :
    effect address i { s with pc := pc } = { effect address i s with pc := pc } := by
  cases i with
  | bl _ =>
      cases h
  | _ =>
      rfl

theorem target_of_straight
    (h : i.straight = true) :
    target address i s = s.pc + 4 := by
  cases i with
  | bl _ =>
      cases h
  | ret =>
      cases h
  | _ =>
      rfl

end Fields

/-- What a block of code without calls does, but for the program counter. -/
def after
    (address : S → BitVec 64)
    (block : List (Instr S))
    (s : State) :
    State :=
  block.foldl (fun s i => effect address i s) s

theorem after_pc
    {address : S → BitVec 64}
    {block : List (Instr S)}
    {s : State}
    {pc : BitVec 64}
    (h : ∀ instr ∈ block, instr.straight = true) :
    after address block { s with pc := pc } = { after address block s with pc := pc } := by
  induction block generalizing s with
  | nil =>
      rfl
  | cons instr block ih =>
      rw [after, List.foldl_cons, effect_pc (h instr List.mem_cons_self)]
      exact ih fun instr hmem => h instr (List.mem_cons_of_mem _ hmem)

section Frames

variable {m : ByteMemory 64} {a b : BitVec 64} {n k v : Nat}

/-- A store changes no load from elsewhere. -/
theorem load_store_apart
    (h : Apart b k a n) :
    (m.store a n v).load b k = m.load b k :=
  ByteMemory.load_congr fun c hc => ByteMemory.store_outside (h c hc)

/-- What is at the old stack pointer or above is not in the frame below it. -/
theorem not_inRange_frame
    {sp : BitVec 64}
    (hfits : k + n ≤ 2 ^ 64)
    (h : InRange sp n b) :
    ¬ InRange (sp - BitVec.ofNat 64 k) k b := by
  have hapart := apart_of_parts (p := sp - BitVec.ofNat 64 k) (i := k) (n := n) (j := 0)
    (k := k) (Or.inr (by omega)) hfits (by omega)
  rw [BitVec.add_zero, BitVec.sub_add_cancel] at hapart
  exact hapart b h

end Frames

section Rules

variable {image : Image S} {s t u : State} {i : Nat} {instr : Instr S}

theorem Image.Runs.refl :
    image.Runs s s :=
  Relation.ReflTransGen.refl

theorem Image.Runs.trans
    (hst : image.Runs s t)
    (htu : image.Runs t u) :
    image.Runs s u :=
  Relation.ReflTransGen.trans hst htu

theorem line_zero :
    image.line 0 = image.base :=
  BitVec.add_zero _

theorem line_succ
    (i : Nat) :
    image.line i + 4 = image.line (i + 1) := by
  rw [Image.line, Image.line, Nat.mul_succ, BitVec.ofNat_add, BitVec.add_assoc]
  rfl

theorem fetch_line
    (hfits : 4 * image.code.length ≤ 2 ^ 64)
    (hi : i < image.code.length) :
    image.fetch (image.line i) = image.code[i]? := by
  have hdistance : (image.line i - image.base).toNat = 4 * i := by
    rw [Image.line, BitVec.add_comm, BitVec.add_sub_cancel, BitVec.toNat_ofNat]
    exact Nat.mod_eq_of_lt (by omega)
  rw [Image.fetch, hdistance, if_pos (by omega), Nat.mul_div_cancel_left i (by decide)]

/-- The step at an instruction. -/
theorem step_line
    (hfits : 4 * image.code.length ≤ 2 ^ 64)
    (hpc : s.pc = image.line i)
    (hline : image.code[i]? = some instr) :
    image.step s = some (exec image.address instr s) := by
  obtain ⟨hi, -⟩ := List.getElem?_eq_some_iff.mp hline
  rw [Image.step, hpc, fetch_line hfits hi, hline]

/-- The step at the address of a callee. -/
theorem step_callee
    {f : State → State}
    (hfetch : image.fetch s.pc = none)
    (hcallee : image.callee s.pc = some f) :
    image.step s = some (f s) := by
  rw [Image.step, hfetch, hcallee]
  rfl

theorem Image.Runs.line
    (hfits : 4 * image.code.length ≤ 2 ^ 64)
    (hpc : s.pc = image.line i)
    (hline : image.code[i]? = some instr) :
    image.Runs s (exec image.address instr s) :=
  Relation.ReflTransGen.single (step_line hfits hpc hline)

/-- A block that stands in the code is executed as a whole. -/
theorem Image.Runs.block
    (hfits : 4 * image.code.length ≤ 2 ^ 64)
    (block : List (Instr S))
    (hpc : s.pc = image.line i)
    (hlines : block <+: image.code.drop i)
    (hstraight : ∀ instr ∈ block, instr.straight = true) :
    image.Runs s { after image.address block s with pc := image.line (i + block.length) } := by
  induction block generalizing s i with
  | nil =>
      rw [List.length_nil, Nat.add_zero, ← hpc]
      exact Image.Runs.refl
  | cons instr block ih =>
      obtain ⟨rest, hrest⟩ := hlines
      have hline : image.code[i]? = some instr := by
        have hhead := congrArg (fun lines => lines[0]?) hrest
        simpa using hhead.symm
      have htail : block <+: image.code.drop (i + 1) := by
        refine ⟨rest, ?_⟩
        have hdrop := congrArg (List.drop 1) hrest
        simpa [List.drop_drop] using hdrop
      have hinstr := hstraight instr List.mem_cons_self
      have hfirst := Image.Runs.line hfits hpc hline
      have hnext : (exec image.address instr s).pc = image.line (i + 1) := by
        rw [← line_succ, ← hpc]
        exact target_of_straight hinstr
      have hrun := ih hnext htail fun instr h => hstraight instr (List.mem_cons_of_mem _ h)
      refine hfirst.trans ?_
      rw [exec, after_pc fun instr h => hstraight instr (List.mem_cons_of_mem _ h)] at hrun
      rw [List.length_cons, Nat.add_comm block.length, ← Nat.add_assoc]
      exact hrun

/-- The machine when a callee begins. -/
def called
    (s : State)
    (back entry : BitVec 64) :
    State :=
  { s.set link back with pc := entry }

@[simp]
theorem regs_called_link
    {back entry : BitVec 64} :
    (called s back entry).regs link = back :=
  regs_set_same (s := s) (r := link) (v := back)

theorem regs_called_of_ne
    {back entry : BitVec 64}
    {r : Reg}
    (h : r ≠ link) :
    (called s back entry).regs r = s.regs r :=
  regs_set_of_ne (s := s) (d := link) (v := back) h

/-- A call. -/
theorem Image.Runs.call
    {f : State → State}
    {symbol : S}
    (hfits : 4 * image.code.length ≤ 2 ^ 64)
    (hpc : s.pc = image.line i)
    (hline : image.code[i]? = some (.bl symbol))
    (hfetch : image.fetch (image.address symbol) = none)
    (hcallee : image.callee (image.address symbol) = some f) :
    image.Runs s (f (called s (image.line (i + 1)) (image.address symbol))) := by
  have hbl : exec image.address (.bl symbol) s =
      called s (image.line (i + 1)) (image.address symbol) := by
    rw [← line_succ, ← hpc]
    rfl
  refine (Image.Runs.line hfits hpc hline).trans ?_
  rw [hbl]
  exact Relation.ReflTransGen.single (step_callee hfetch hcallee)

end Rules

end A64Calls
end Foundation
end OsSeminars
