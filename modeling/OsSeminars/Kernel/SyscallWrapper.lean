import OsSeminars.Foundation.X64Stack

/-!
# 09-kernel/0/syscall.S

The wrapper is called like a C function and executes a system call. It saves the
registers that it or the system call changes, and it moves its arguments to the
registers of the kernel by pushing them and popping them into other registers.

The words of the first group stay on the stack during the system call. The pops
behind it read what the kernel has left there, and `ret` reads the return address
from the memory that the kernel has left.
-/

namespace OsSeminars
namespace Kernel
namespace SyscallWrapper

open Foundation X64

inductive Label where
  | syscall
deriving DecidableEq

/-- `syscall.S`. -/
def syscall : List (Assembly.Line Label (Instr Empty Label)) :=
  [ .label .syscall,
    -- prologue
    .instr (.push .rbx),
    .instr (.push .rbp),
    .instr (.push .r12),
    .instr (.push .r13),
    .instr (.push .r14),
    .instr (.push .r15),
    .instr (.push .r11),
    .instr (.push .rcx),
    -- the arguments
    .instr (.push .r9),
    .instr (.push .r8),
    .instr (.push .rcx),
    .instr (.push .rdx),
    .instr (.push .rsi),
    .instr (.push .rdi),
    .instr (.pop .rax),
    .instr (.pop .rdi),
    .instr (.pop .rsi),
    .instr (.pop .rdx),
    .instr (.pop .r10),
    .instr (.pop .r8),
    .instr .syscall,
    -- epilogue
    .instr (.pop .rcx),
    .instr (.pop .r11),
    .instr (.pop .r15),
    .instr (.pop .r14),
    .instr (.pop .r13),
    .instr (.pop .r12),
    .instr (.pop .rbp),
    .instr (.pop .rbx),
    .instr .ret ]

/-- A run of the wrapper. -/
abbrev Runs
    (env : Env Empty) :
    Assembly.Config (State Empty) (BitVec 64) →
      Assembly.Config (State Empty) (BitVec 64) → Prop :=
  Assembly.Runs (exec env) syscall

/-- The registers that the wrapper saves and restores. -/
def savedRegs : List Reg :=
  [.rbx, .rbp, .r12, .r13, .r14, .r15, .r11, .rcx]

/-- The registers that are pushed to be rearranged. -/
def argumentRegs : List Reg :=
  [.r9, .r8, .rcx, .rdx, .rsi, .rdi]

/-- The registers that the arguments are popped into. -/
def kernelRegs : List Reg :=
  [.rax, .rdi, .rsi, .rdx, .r10, .r8]

/-- The wrapper, entered in `s`, is before its system call. -/
structure AtSyscall
    (s t : State Empty) : Prop where
  stack : OwnStack (s.regs .rsp) 14 s.mem (savedRegs.map s.regs).reverse t
  arguments : kernelRegs.map t.regs = (argumentRegs.map s.regs).reverse
  others : ∀ r, r ≠ .rsp → r ∉ kernelRegs → t.regs r = s.regs r

/-- Where the six registers of the call have been moved to. -/
theorem AtSyscall.moved
    {s t : State Empty}
    (ht : AtSyscall s t) :
    t.regs .rax = s.regs .rdi ∧ t.regs .rdi = s.regs .rsi ∧ t.regs .rsi = s.regs .rdx ∧
      t.regs .rdx = s.regs .rcx ∧ t.regs .r10 = s.regs .r8 ∧ t.regs .r8 = s.regs .r9 := by
  have h := ht.arguments
  simp only [kernelRegs, argumentRegs, List.map_cons, List.map_nil, List.reverse_cons,
    List.reverse_nil, List.nil_append, List.cons_append, List.cons.injEq, and_true] at h
  exact h

section Prologue

theorem runs_prologue
    (env : Env Empty)
    (s : State Empty) :
    ∃ t, Runs env (.running 0 s) (.running 21 t) ∧ AtSyscall s t := by
  obtain ⟨t, hpushes, hstack, hkept, -⟩ :=
    runBlock_pushes (L := Label) env (savedRegs ++ argumentRegs) (by decide)
      (by decide) (ownStack_entry 14 (by decide) s)
  rw [List.append_nil, List.map_append, List.reverse_append] at hstack
  obtain ⟨u, hpops, hstack', hmap, hkept', -, -⟩ :=
    runBlock_pops (L := Label) env kernelRegs (by decide) (by decide) rfl hstack
  have hruns : Runs env (.running 0 s) (.running 21 u) :=
    (Assembly.Runs.label rfl).trans
      ((Assembly.Runs.block _ ⟨_, rfl⟩ hpushes).trans (Assembly.Runs.block _ ⟨_, rfl⟩ hpops))
  exact ⟨u, hruns, hstack', hmap, fun r hr hr' => (hkept' r hr hr').trans (hkept r hr)⟩

end Prologue

section Epilogue

/-- In the system call made in `t` the kernel changes no register but `rax`, `rcx` and
`r11`, and not the eight words that the wrapper, entered with the stack pointer `p`, has on
its stack. -/
structure KernelKeeps
    (env : Env Empty)
    (p : BitVec 64)
    (t : State Empty) : Prop where
  regs : ∀ r, r ≠ .rax → r ≠ .rcx → r ≠ .r11 → (env.syscall t).1 r = t.regs r
  words : ∀ b, InRange (p - 64) 64 b → (env.syscall t).2 b = t.mem b

variable {env : Env Empty} {s t : State Empty}

/-- The state behind the system call instruction. -/
abbrev kernelState
    (env : Env Empty)
    (t : State Empty) :
    State Empty :=
  t.afterOutside (env.syscall t)

/-- The kernel leaves the wrapper its stack. -/
theorem ownStack_kernelState
    (hkernel : KernelKeeps env (s.regs .rsp) t)
    (ht : AtSyscall s t) :
    OwnStack (s.regs .rsp) 14 (env.syscall t).2 (savedRegs.map s.regs).reverse
      (kernelState env t) := by
  have hrsp : (env.syscall t).1 .rsp = t.regs .rsp :=
    hkernel.regs .rsp (by decide) (by decide) (by decide)
  constructor
  · exact hrsp.trans ht.stack.rsp
  · show WordsAt (env.syscall t).2 ((env.syscall t).1 .rsp) _
    rw [hrsp]
    refine wordsAt_congr (fun b hb => (hkernel.words b ?_).symm) ht.stack.words
    rw [ht.stack.rsp] at hb
    exact hb
  · exact ht.stack.depth_le
  · exact ht.stack.fits
  · exact fun _ _ => rfl

/-- What the wrapper leaves when it returns after the system call in `t`. -/
structure Returned
    (env : Env Empty)
    (s t u : State Empty) : Prop where
  rsp : u.regs .rsp = s.regs .rsp + 8
  restored : ∀ r ∈ savedRegs, u.regs r = s.regs r
  rax : u.regs .rax = (env.syscall t).1 .rax
  mem : u.mem = (env.syscall t).2

theorem runs_epilogue
    (hkernel : KernelKeeps env (s.regs .rsp) t)
    (ht : AtSyscall s t) :
    ∃ u, Runs env (.running 21 t)
        (.returned ((kernelState env t).word64 (s.regs .rsp)) u) ∧
      Returned env s t u := by
  have hstack := ownStack_kernelState hkernel ht
  rw [← List.append_nil (savedRegs.map s.regs).reverse] at hstack
  obtain ⟨u, hpops, hempty, hmap, hkept, hmem, -⟩ :=
    runBlock_pops (L := Label) env savedRegs.reverse (by decide) (by decide) rfl hstack
  have hrsp : u.regs .rsp = s.regs .rsp := by
    rw [hempty.rsp, List.length_nil, BitVec.sub_zero]
  have hret : exec env (.ret : Instr Empty Label) u =
      some ((u.noteRead (s.regs .rsp) 8).set .rsp (s.regs .rsp + 8),
        .leave ((kernelState env t).word64 (s.regs .rsp))) := by
    rw [exec, hrsp, State.word64, hmem]
    rfl
  refine ⟨_, (Assembly.Runs.next rfl rfl).trans
    ((Assembly.Runs.block _ ⟨_, rfl⟩ hpops).trans (Assembly.Runs.leave rfl hret)), ?_⟩
  constructor
  · rfl
  · intro r hr
    have hne : r ≠ .rsp := fun heq => absurd (heq ▸ hr) (by decide)
    rw [← List.map_reverse] at hmap
    show Function.update u.regs .rsp (s.regs .rsp + 8) r = s.regs r
    rw [Function.update_of_ne hne]
    exact (List.map_inj_left.mp hmap) r (List.mem_reverse.mpr hr)
  · exact hkept .rax (by decide) (by decide)
  · exact hmem

/-- The wrapper's own words are the only ones that it changes before the system call. -/
theorem AtSyscall.outside
    (ht : AtSyscall s t)
    {b : BitVec 64}
    (hb : ¬ InRange (s.regs .rsp - 112) 112 b) :
    t.mem b = s.mem b :=
  ht.stack.outside b hb

/-- If the kernel leaves the word at `p` alone, `ret` finds the caller's return address. -/
theorem returnAddress_kept
    (ht : AtSyscall s t)
    (hkept : ∀ b, InRange (s.regs .rsp) 8 b → (env.syscall t).2 b = t.mem b) :
    (kernelState env t).word64 (s.regs .rsp) = s.word64 (s.regs .rsp) :=
  congrArg (BitVec.ofNat 64) (ByteMemory.load_congr
    (fun b hb => (hkept b hb).trans (ht.outside (not_inRange_below (k := 112) (by decide) hb))))

end Epilogue

/--
The wrapper returns with the stack pointer behind its return address, the saved
registers restored and the kernel's result in `rax`. Outside its own words the
memory is what the kernel has left, and the wrapper has changed nothing there.
The return goes to the word that then stands at the entry stack pointer, which
is the caller's return address unless the kernel has changed it.
-/
theorem wrapper_restores
    (env : Env Empty)
    (s : State Empty)
    (hkernel : ∀ pc t, syscall[pc]? = some (.instr .syscall) →
      Runs env (.running 0 s) (.running pc t) → KernelKeeps env (s.regs .rsp) t) :
    ∃ pc t u, syscall[pc]? = some (.instr .syscall) ∧
      Runs env (.running 0 s) (.running pc t) ∧
      Runs env (.running pc t)
        (.returned (BitVec.ofNat 64 ((env.syscall t).2.load (s.regs .rsp) 8)) u) ∧
      u.regs .rsp = s.regs .rsp + 8 ∧
      (∀ r ∈ [Reg.rbx, .rbp, .r12, .r13, .r14, .r15, .rcx, .r11], u.regs r = s.regs r) ∧
      u.regs .rax = (env.syscall t).1 .rax ∧
      u.mem = (env.syscall t).2 ∧
      (∀ b, ¬ InRange (s.regs .rsp - 112) 112 b → t.mem b = s.mem b) ∧
      ((∀ b, InRange (s.regs .rsp) 8 b → (env.syscall t).2 b = t.mem b) →
        BitVec.ofNat 64 ((env.syscall t).2.load (s.regs .rsp) 8) =
          s.word64 (s.regs .rsp)) := by
  obtain ⟨t, hprologue, ht⟩ := runs_prologue env s
  obtain ⟨u, hepilogue, hu⟩ := runs_epilogue (hkernel 21 t rfl hprologue) ht
  refine ⟨21, t, u, rfl, hprologue, hepilogue, hu.rsp, ?_, hu.rax, hu.mem,
    fun b hb => ht.outside hb, fun hkept => returnAddress_kept ht hkept⟩
  intro r hr
  refine hu.restored r ?_
  revert r
  decide

section Kernels

/-- `syscall(0, 0, 4104, 1)`: a `read` of one byte into a variable of the caller, entered
with the stack pointer 4096. -/
def entered : State Empty where
  regs
    | .rdi => 0
    | .rsi => 0
    | .rdx => 4104
    | .rcx => 1
    | .rsp => 4096
    | _ => 3
  flags := none
  mem := fun _ => 0
  accesses := []
  calls := []

/-- The registers behind a system call whose result is 1. The address behind the
instruction is in `rcx` and the flags are in `r11`. -/
def afterCall
    (regs : Registers) :
    Registers :=
  fun r =>
    if r = .rax then 1 else if r = .rcx then 4198400 else if r = .r11 then 582 else regs r

theorem afterCall_of_ne
    (regs : Registers)
    {r : Reg}
    (hrax : r ≠ .rax)
    (hrcx : r ≠ .rcx)
    (hr11 : r ≠ .r11) :
    afterCall regs r = regs r := by
  rw [afterCall, if_neg hrax, if_neg hrcx, if_neg hr11]

/-- A kernel that changes nothing in memory. -/
def quietKernel : Env Empty where
  address := fun x => x.elim
  link := fun _ => 0
  call := fun x => x.elim
  syscall := fun s => (afterCall s.regs, s.mem)

/-- A kernel that reads bytes 7 into the buffer of its second argument. -/
def readingKernel : Env Empty :=
  { quietKernel with
    syscall := fun s =>
      (afterCall s.regs, s.mem.store (s.regs .rsi) (s.regs .rdx).toNat 7) }

/-- The wrapper does not jump. -/
theorem straight_syscall
    (env : Env Empty) :
    Assembly.Straight (exec env) syscall := by
  intro i s t l hi
  simp only [syscall, List.mem_cons, Assembly.Line.instr.injEq, reduceCtorEq, List.not_mem_nil,
    or_false, false_or] at hi
  rcases hi with rfl | rfl | rfl | rfl | rfl | rfl | rfl | rfl | rfl | rfl | rfl | rfl | rfl |
    rfl | rfl | rfl | rfl | rfl | rfl | rfl | rfl | rfl | rfl | rfl | rfl | rfl | rfl | rfl |
    rfl | rfl
  all_goals simp [exec]

/-- The system call is made once, in the state that the prologue leads to. -/
theorem atSyscall_of_runs
    {env : Env Empty}
    {s t : State Empty}
    {pc : Nat}
    (hline : syscall[pc]? = some (.instr .syscall))
    (hruns : Runs env (.running 0 s) (.running pc t)) :
    AtSyscall s t := by
  obtain ⟨hlt, -⟩ := List.getElem?_eq_some_iff.mp hline
  have hpc : ∀ k < 31, syscall[k]? = some (.instr .syscall) → k = 21 := by
    decide
  obtain rfl := hpc pc hlt hline
  obtain ⟨u, hprologue, hu⟩ := runs_prologue env s
  rw [(straight_syscall env).state_unique hruns hprologue]
  exact hu

/-- The buffer of the call lies above the stack of the wrapper. -/
theorem readingKernel_keeps
    {t : State Empty}
    (ht : AtSyscall entered t) :
    KernelKeeps readingKernel 4096 t where
  regs := fun _ hrax hrcx hr11 => afterCall_of_ne t.regs hrax hrcx hr11
  words := by
    intro b hb
    obtain ⟨-, -, hrsi, hrdx, -, -⟩ := ht.moved
    have hapart := apart_of_parts (p := (4032 : BitVec 64)) (i := 0) (n := 64) (j := 72)
      (k := 1) (Or.inl (by decide)) (by decide) (by decide)
    show t.mem.store (t.regs .rsi) (t.regs .rdx).toNat 7 b = t.mem b
    rw [hrsi, hrdx]
    exact ByteMemory.store_outside (hapart b hb)

theorem wrapper_restores_readingKernel :
    ∃ pc t u, Runs readingKernel (.running 0 entered) (.running pc t) ∧
      Runs readingKernel (.running pc t)
        (.returned (BitVec.ofNat 64 ((readingKernel.syscall t).2.load 4096 8)) u) ∧
      u.regs .rsp = 4104 ∧ u.regs .rcx = 1 ∧ u.regs .r11 = 3 ∧ u.regs .rax = 1 := by
  obtain ⟨pc, t, u, -, hcall, hreturn, hrsp, hsaved, hrax, -⟩ :=
    wrapper_restores readingKernel entered fun pc t hline hruns =>
      readingKernel_keeps (atSyscall_of_runs hline hruns)
  exact ⟨pc, t, u, hcall, hreturn, hrsp, hsaved .rcx (by decide), hsaved .r11 (by decide), hrax⟩

/-- The byte that the kernel has read into the caller's variable has changed. -/
theorem stack_word_changed_readingKernel :
    (∀ pc t, syscall[pc]? = some (.instr .syscall) →
      Runs readingKernel (.running 0 entered) (.running pc t) →
      KernelKeeps readingKernel (entered.regs .rsp) t) ∧
    ∃ a u, Runs readingKernel (.running 0 entered) (.returned a u) ∧
      u.mem 4104 ≠ entered.mem 4104 := by
  refine ⟨fun pc t hline hruns => readingKernel_keeps (atSyscall_of_runs hline hruns), ?_⟩
  obtain ⟨t, hprologue, ht⟩ := runs_prologue readingKernel entered
  obtain ⟨u, hepilogue, hu⟩ := runs_epilogue (readingKernel_keeps ht) ht
  refine ⟨_, u, hprologue.trans hepilogue, ?_⟩
  have hread : u.mem 4104 = 7 := by
    obtain ⟨-, -, hrsi, hrdx, -, -⟩ := ht.moved
    rw [hu.mem]
    show t.mem.store (t.regs .rsi) (t.regs .rdx).toNat 7 4104 = 7
    rw [hrsi, hrdx]
    exact ByteMemory.store_inside (m := t.mem) (a := (4104 : BitVec 64)) (b := 4104) (n := 1)
      (by decide)
  rw [hread]
  decide

end Kernels

section Arguments

/-- Where a caller passes the arguments behind the number: registers, then the
stack above the return address. -/
def passed
    (s : State Empty) :
    List (BitVec 64) :=
  [s.regs .rsi, s.regs .rdx, s.regs .rcx, s.regs .r8, s.regs .r9,
    s.word64 (s.regs .rsp + 8)]

/-- Where the kernel expects them. -/
def expected
    (t : State Empty) :
    List (BitVec 64) :=
  [t.regs .rdi, t.regs .rsi, t.regs .rdx, t.regs .r10, t.regs .r8, t.regs .r9]

variable {s t : State Empty}

/-- Five arguments arrive, and the sixth is the fifth once more. -/
theorem expected_eq
    (ht : AtSyscall s t) :
    t.regs .rax = s.regs .rdi ∧
      expected t = (passed s).take 5 ++ [s.regs .r9] := by
  obtain ⟨hrax, hrdi, hrsi, hrdx, hr10, hr8⟩ := ht.moved
  have hr9 : t.regs .r9 = s.regs .r9 := ht.others .r9 (by decide) (by decide)
  refine ⟨hrax, ?_⟩
  simp only [expected, passed, hrdi, hrsi, hrdx, hr10, hr8, hr9, List.take_succ_cons,
    List.take_zero, List.cons_append, List.nil_append]

/-- A list of arguments arrives unless its sixth element differs from the fifth. -/
theorem arguments_arrive_iff
    {args : List (BitVec 64)}
    (hargs : args <+: passed s)
    (ht : AtSyscall s t) :
    args <+: expected t ↔ args.length ≤ 5 ∨ args[5]? = args[4]? := by
  rw [(expected_eq ht).2]
  rcases Nat.lt_or_ge 5 args.length with hsix | hfive
  · -- all six are passed, the last one in memory
    have hall : args = passed s := by
      refine hargs.eq_of_length_le ?_
      show 6 ≤ args.length
      omega
    subst hall
    simp [passed, eq_comm]
  · have hfits : args <+: (passed s).take 5 :=
      List.prefix_take_iff.mpr ⟨hargs, hfive⟩
    exact iff_of_true (hfits.trans (List.prefix_append _ _)) (Or.inl hfive)

end Arguments

/--
At the system call the number is in `rax`, and the arguments are in the registers
of the kernel in order if and only if there are at most five of them or the sixth
equals the fifth.
-/
theorem arguments_in_order_iff
    (env : Env Empty)
    (s : State Empty)
    (args : List (BitVec 64))
    (hargs : args <+: passed s) :
    ∃ pc t, syscall[pc]? = some (.instr .syscall) ∧
      Runs env (.running 0 s) (.running pc t) ∧
      ((t.regs .rax = s.regs .rdi ∧ args <+: expected t) ↔
        args.length ≤ 5 ∨ args[5]? = args[4]?) := by
  obtain ⟨t, hruns, ht⟩ := runs_prologue env s
  refine ⟨21, t, rfl, hruns, ?_⟩
  rw [← arguments_arrive_iff hargs ht]
  exact and_iff_right (expected_eq ht).1

/-- Called with the number 9 and six arguments, the sixth on the stack. -/
def sixArguments : State Empty where
  regs
    | .rdi => 9
    | .rsi => 1
    | .rdx => 2
    | .rcx => 3
    | .r8 => 4
    | .r9 => 5
    | .rsp => 4096
    | _ => 0
  flags := none
  mem := fun b => if b = 4104 then 6 else 0
  accesses := []
  calls := []

theorem arguments_in_order_five :
    ∃ pc t, syscall[pc]? = some (.instr .syscall) ∧
      Runs quietKernel (.running 0 sixArguments) (.running pc t) ∧
      t.regs .rax = 9 ∧ [1, 2, 3, 4, 5] <+: expected t := by
  obtain ⟨pc, t, hline, hruns, harrive⟩ :=
    arguments_in_order_iff quietKernel sixArguments [1, 2, 3, 4, 5] (by decide)
  exact ⟨pc, t, hline, hruns, harrive.mpr (Or.inl (by decide))⟩

/-- The sixth argument does not reach `r9`. -/
theorem not_arguments_in_order_six :
    [1, 2, 3, 4, 5, 6] <+: passed sixArguments ∧
      ∃ pc t, syscall[pc]? = some (.instr .syscall) ∧
        Runs quietKernel (.running 0 sixArguments) (.running pc t) ∧
        ¬ [1, 2, 3, 4, 5, 6] <+: expected t := by
  have hargs : [1, 2, 3, 4, 5, 6] <+: passed sixArguments := by
    decide
  obtain ⟨t, hruns, ht⟩ := runs_prologue quietKernel sixArguments
  refine ⟨hargs, 21, t, rfl, hruns, ?_⟩
  rw [arguments_arrive_iff hargs ht]
  decide

end SyscallWrapper
end Kernel
end OsSeminars
