import OsSeminars.Foundation.A64Calls
import OsSeminars.Foundation.CString
import OsSeminars.Foundation.FormatText
import Mathlib.Tactic.IntervalCases

/-!
# 05-arm-asm-stack/asm-printf: calls of `printf`

Both programs save the return address on the stack before they call `printf`. The one of
`asm-printf-2.S` passes nine numbers, of which two are on the stack, and restores the
return address. The one of `asm-printf.S` does not restore it: the line that would is a
comment. So it returns to where `printf` has returned to.

`printf` itself is a parameter. In the one call that a program makes, it keeps to the
calling convention, and it prints what the format in the memory says about its arguments.
-/

namespace OsSeminars
namespace ArmAsm
namespace AsmPrintf

open Foundation
open Foundation.A64Calls

/-- The symbols of both programs. -/
inductive Symbol where
  | fmtStr
  | printf
deriving DecidableEq

/-- `main` of `asm-printf.S`. -/
def asmPrintf : List (Instr Symbol) :=
  [ .subSp 16,
    .str .x30 0,
    .adr .x0 .fmtStr,
    .mov .x1 100,
    .bl .printf,
    .addSp 16,
    .ret ]

/-- `main` of `asm-printf-2.S`. -/
def asmPrintf2 : List (Instr Symbol) :=
  [ .subSp 32,
    .mov .x0 8,
    .str .x0 0,
    .mov .x0 9,
    .str .x0 8,
    .str .x30 16,
    .adr .x0 .fmtStr,
    .mov .x1 1,
    .mov .x2 2,
    .mov .x3 3,
    .mov .x4 4,
    .mov .x5 5,
    .mov .x6 6,
    .mov .x7 7,
    .bl .printf,
    .ldr .x30 16,
    .addSp 32,
    .ret ]

/-- `fmt_str` of `asm-printf.S`. -/
def fmtStr : List UInt8 :=
  CString.literal "%d\n"

/-- `fmt_str` of `asm-printf-2.S`. -/
def fmtStr2 : List UInt8 :=
  CString.literal "%d %d %d %d %d %d %d %d %d\n"

/-- A program together with `printf`, which is somewhere else. -/
structure Linked
    (image : Image Symbol)
    (code : List (Instr Symbol))
    (printf : State → State) :
    Prop where
  code : image.code = code
  outside : image.fetch (image.address .printf) = none
  callee : image.callee (image.address .printf) = some printf

/-- A call of `printf` that begins in `s` has printed, in `t`, the text for a format of
`%d`. -/
def PrintsInts
    (s t : State) :
    Prop :=
  ∀ text,
    FormatText.formatted (variadicInt s)
      (FormatText.readString s.mem (s.regs .x0) (2 ^ 64)) 0 = some text →
    t.out = s.out ++ text

section Nine

variable {image : Image Symbol} {printf : State → State} {n : Nat} {s : State}

/-- The code of `asm-printf-2.S` up to the call. -/
def passing2 : List (Instr Symbol) :=
  asmPrintf2.take 14

/-- The memory with the frame of `main` in it. -/
def framed2
    (s : State) :
    ByteMemory 64 :=
  ((s.mem.store (s.sp - 32 + BitVec.ofNat 64 0) 8 8).store
    (s.sp - 32 + BitVec.ofNat 64 8) 8 9).store
      (s.sp - 32 + BitVec.ofNat 64 16) 8 (s.regs link).toNat

/-- The callee-saved registers and the link register take no number. -/
theorem regs_passing2_of_saved
    (address : Symbol → BitVec 64)
    (s : State)
    {r : Reg}
    (hr : r ∈ calleeSaved) :
    (after address passing2 s).regs r = s.regs r := by
  simp only [calleeSaved, List.mem_cons, List.not_mem_nil, or_false] at hr
  rcases hr with rfl | rfl | rfl | rfl | rfl | rfl | rfl | rfl | rfl | rfl | rfl <;> rfl

/-- Nothing outside of the frame is changed. -/
theorem framed2_outside
    {b : BitVec 64}
    (h : ¬ InRange (s.sp - 32) 32 b) :
    framed2 s b = s.mem b := by
  have hpart : ∀ i, i + 8 ≤ 32 → ¬ InRange (s.sp - 32 + BitVec.ofNat 64 i) 8 b :=
    fun i hi hb => h (inRange_of_part hb hi)
  rw [framed2, ByteMemory.store_outside (hpart 16 (by decide)),
    ByteMemory.store_outside (hpart 8 (by decide)),
    ByteMemory.store_outside (hpart 0 (by decide))]

/-- Two words of the frame do not overlap. -/
theorem words_apart
    (p : BitVec 64)
    {i j k : Nat}
    (hk : k ≤ 8)
    (h : i + 8 ≤ j ∨ j + 8 ≤ i)
    (hi : i + 8 ≤ 32)
    (hj : j + 8 ≤ 32) :
    Apart (p + BitVec.ofNat 64 i) k (p + BitVec.ofNat 64 j) 8 :=
  apart_of_parts (by omega) (by omega) (by omega)

theorem load_framed2_first :
    (framed2 s).load (s.sp - 32 + BitVec.ofNat 64 0) 4 = 8 := by
  rw [framed2, load_store_apart (words_apart _ (by decide) (by decide) (by decide) (by decide)),
    load_store_apart (words_apart _ (by decide) (by decide) (by decide) (by decide)),
    ByteMemory.load_store_low (by decide) (by decide)]
  rfl

theorem load_framed2_second :
    (framed2 s).load (s.sp - 32 + BitVec.ofNat 64 8) 4 = 9 := by
  rw [framed2, load_store_apart (words_apart _ (by decide) (by decide) (by decide) (by decide)),
    ByteMemory.load_store_low (by decide) (by decide)]
  rfl

theorem load_framed2_link :
    (framed2 s).load (s.sp - 32 + BitVec.ofNat 64 16) 8 = (s.regs link).toNat := by
  have hbound : (s.regs link).toNat < 256 ^ 8 := (s.regs link).isLt
  rw [framed2, ByteMemory.load_store_same (by decide), Nat.mod_eq_of_lt hbound]

/-- The machine when `printf` begins. -/
def calling2
    (image : Image Symbol)
    (s : State) :
    State :=
  called { after image.address passing2 s with pc := image.line 14 } (image.line 15)
    (image.address .printf)

theorem regs_calling2_link :
    (calling2 image s).regs link = image.line 15 :=
  regs_called_link

/-- The nine arguments are the numbers from one on. -/
theorem variadicInt_calling2
    {k : Nat}
    (hk : k < 9) :
    variadicInt (calling2 image s) k = k + 1 := by
  by_cases hseven : k < 7
  · -- the numbers in registers
    interval_cases k <;> rfl
  · -- the two words on the stack
    have hcases : k = 7 ∨ k = 8 := by omega
    have hword : ∀ j, (calling2 image s).mem.load
        ((calling2 image s).sp + BitVec.ofNat 64 j) 4 =
          (framed2 s).load (s.sp - 32 + BitVec.ofNat 64 j) 4 :=
      fun j => rfl
    rcases hcases with rfl | rfl
    · have hload := (hword 0).trans load_framed2_first
      exact congrArg (fun v => (BitVec.ofNat 32 v).toInt) hload
    · have hload := (hword 8).trans load_framed2_second
      exact congrArg (fun v => (BitVec.ofNat 32 v).toInt) hload

/-- The text of nine numbers. -/
def nine : List UInt8 :=
  CString.literal "1 2 3 4 5 6 7 8 9\n"

theorem formatted_calling2 :
    FormatText.formatted (variadicInt (calling2 image s)) fmtStr2 0 = some nine := by
  have hcongr : FormatText.formatted (variadicInt (calling2 image s)) fmtStr2 0 =
      FormatText.formatted (fun k => (k : Int) + 1) fmtStr2 0 :=
    FormatText.formatted_congr 0 fun j _ hj =>
      variadicInt_calling2 (Nat.lt_of_lt_of_eq hj rfl)
  rw [hcongr]
  decide +kernel

/-- The format is where `printf` looks for it. -/
theorem readString_calling2
    (hformat : FormatText.StringAt s.mem (image.address .fmtStr) fmtStr2)
    (hapart : Apart (image.address .fmtStr) (fmtStr2.length + 1) (s.sp - 32) 32) :
    FormatText.readString (calling2 image s).mem ((calling2 image s).regs .x0) (2 ^ 64) =
      fmtStr2 := by
  have hstring : FormatText.StringAt (framed2 s) (image.address .fmtStr) fmtStr2 :=
    hformat.congr fun b hb => (framed2_outside (hapart b hb)).symm
  exact hstring.readString_eq (by decide)

/-- From the entry to where `printf` begins, and through `printf`. -/
theorem runs_call2
    (hlinked : Linked image asmPrintf2 printf)
    (hpc : s.pc = image.base) :
    image.Runs s (printf (calling2 image s)) := by
  have hcode := hlinked.code
  have hfits : 4 * image.code.length ≤ 2 ^ 64 := by
    rw [hcode]
    decide
  have hblock := Image.Runs.block hfits passing2 (i := 0) (hpc.trans line_zero.symm)
    (by rw [hcode]; exact List.take_prefix 14 asmPrintf2) (by decide)
  exact hblock.trans
    (Image.Runs.call hfits rfl (by rw [hcode]; rfl) hlinked.outside hlinked.callee)

/-- The machine when `main` has returned; the return address has come from the frame. -/
def returned2
    (p : State) :
    State :=
  let back := BitVec.ofNat 64 (p.mem.load (p.sp + BitVec.ofNat 64 16) 8)
  { p with regs := Function.update p.regs link back, sp := p.sp + 32, pc := back }

theorem runs_return2
    (hlinked : Linked image asmPrintf2 printf)
    {p : State}
    (hpc : p.pc = image.line 15) :
    image.Runs p (returned2 p) := by
  have hcode := hlinked.code
  have hfits : 4 * image.code.length ≤ 2 ^ 64 := by
    rw [hcode]
    decide
  have hblock := Image.Runs.block hfits [.ldr .x30 16, .addSp 32] hpc
    (by rw [hcode]; exact ⟨[.ret], rfl⟩) (by decide)
  have hret := hblock.trans (Image.Runs.line hfits rfl (by rw [hcode]; rfl))
  have hreturned : exec image.address .ret
      { after image.address [.ldr .x30 16, .addSp 32] p with pc := image.line 17 } =
        returned2 p := by
    simp [exec, after, effect, target, State.set, returned2]
  rw [← hreturned]
  exact hret

/-- `main` of `asm-printf-2.S` prints the nine numbers and returns to its caller, with the
stack pointer, the callee-saved registers and the frames above its own as they were. -/
theorem prints_nine_and_returns
    (hlinked : Linked image asmPrintf2 printf)
    (hkeeps : Keeps 16 (16 + n) (calling2 image s) (printf (calling2 image s)))
    (hprints : PrintsInts (calling2 image s) (printf (calling2 image s)))
    (hn : 32 + n ≤ 2 ^ 64)
    (hpc : s.pc = image.base)
    (hformat : FormatText.StringAt s.mem (image.address .fmtStr) fmtStr2)
    (hapart : Apart (image.address .fmtStr) (fmtStr2.length + 1) (s.sp - 32) 32) :
    ∃ t, image.Runs s t ∧
      t.pc = s.regs link ∧
      t.sp = s.sp ∧
      (∀ r ∈ calleeSaved, t.regs r = s.regs r) ∧
      (∀ b, InRange s.sp n b → t.mem b = s.mem b) ∧
      t.out = s.out ++ nine := by
  -- what `printf` leaves behind
  let p := printf (calling2 image s)
  have hp : p.pc = image.line 15 := hkeeps.pc.trans regs_calling2_link
  have hsp : p.sp = s.sp - 32 := hkeeps.sp
  have hframe : ∀ b, InRange (s.sp - 32 + BitVec.ofNat 64 16) (16 + n) b →
      p.mem b = framed2 s b :=
    fun b hb => hkeeps.frame b hb
  have hsaved : ∀ r ∈ calleeSaved, p.regs r = s.regs r := by
    intro r hr
    exact (hkeeps.saved r hr).trans
      ((regs_called_of_ne (ne_link_of_saved hr)).trans (regs_passing2_of_saved _ _ hr))
  -- the return address is still in the frame
  have hback : BitVec.ofNat 64 (p.mem.load (p.sp + BitVec.ofNat 64 16) 8) = s.regs link := by
    have hload : p.mem.load (p.sp + BitVec.ofNat 64 16) 8 = (s.regs link).toNat := by
      rw [hsp, ← load_framed2_link]
      exact ByteMemory.load_congr fun b hb => hframe b (inRange_mono hb (by omega))
    rw [hload, BitVec.ofNat_toNat, BitVec.setWidth_eq]
  refine ⟨returned2 p, (runs_call2 hlinked hpc).trans (runs_return2 hlinked hp), hback, ?_, ?_,
    ?_, ?_⟩
  · rw [returned2, hsp]
    exact BitVec.sub_add_cancel s.sp 32
  · intro r hr
    exact (Function.update_of_ne (ne_link_of_saved hr) ..).trans (hsaved r hr)
  · intro b hb
    have habove : InRange (s.sp - 32 + BitVec.ofNat 64 16) (16 + n) b := by
      refine inRange_of_part (i := 16) (n := n) ?_ le_rfl
      rw [BitVec.add_assoc, ← BitVec.ofNat_add]
      have hcancel : s.sp - 32 + BitVec.ofNat 64 (16 + 16) = s.sp :=
        BitVec.sub_add_cancel s.sp 32
      rwa [hcancel]
    exact (hframe b habove).trans (framed2_outside (not_inRange_frame hn hb))
  · refine hprints nine ?_
    rw [readString_calling2 hformat hapart]
    exact formatted_calling2

end Nine

section Loop

variable {image : Image Symbol} {printf : State → State} {s t u : State}

theorem fits_of_linked
    (hlinked : Linked image asmPrintf printf) :
    4 * image.code.length ≤ 2 ^ 64 := by
  rw [hlinked.code]
  decide

/-- The machine when `printf` begins. -/
def calling
    (image : Image Symbol)
    (s : State) :
    State :=
  called { after image.address (asmPrintf.take 4) s with pc := image.line 4 } (image.line 5)
    (image.address .printf)

theorem runs_call
    (hlinked : Linked image asmPrintf printf)
    (hpc : s.pc = image.base) :
    image.Runs s (printf (calling image s)) := by
  have hcode := hlinked.code
  have hfits := fits_of_linked hlinked
  have hblock := Image.Runs.block hfits (asmPrintf.take 4) (i := 0) (hpc.trans line_zero.symm)
    (by rw [hcode]; exact List.take_prefix 4 asmPrintf) (by decide)
  exact hblock.trans
    (Image.Runs.call hfits rfl (by rw [hcode]; rfl) hlinked.outside hlinked.callee)

/-- The text of the number. -/
def hundred : List UInt8 :=
  CString.literal "100\n"

theorem formatted_calling :
    FormatText.formatted (variadicInt (calling image s)) fmtStr 0 = some hundred := by
  have hfirst : variadicInt (calling image s) 0 = 100 := by
    rfl
  have hcongr : FormatText.formatted (variadicInt (calling image s)) fmtStr 0 =
      FormatText.formatted (fun _ => 100) fmtStr 0 := by
    refine FormatText.formatted_congr 0 fun j _ hj => ?_
    have hzero : j = 0 := Nat.lt_one_iff.mp (Nat.lt_of_lt_of_eq hj rfl)
    rw [hzero, hfirst]
  rw [hcongr]
  decide +kernel

theorem readString_calling
    (hformat : FormatText.StringAt s.mem (image.address .fmtStr) fmtStr)
    (hapart : Apart (image.address .fmtStr) (fmtStr.length + 1) (s.sp - 16) 16) :
    FormatText.readString (calling image s).mem ((calling image s).regs .x0) (2 ^ 64) =
      fmtStr := by
  have hstring : FormatText.StringAt (calling image s).mem (image.address .fmtStr) fmtStr := by
    refine hformat.congr fun b hb => (ByteMemory.store_outside fun hb' => ?_).symm
    exact hapart b hb (inRange_of_part (i := 0) hb' (by decide))
  exact hstring.readString_eq (by decide)

/-- `add sp, sp, #16` and `ret`, with the address of the former in the link register. -/
theorem runs_round
    (hlinked : Linked image asmPrintf printf)
    (hpc : u.pc = image.line 5)
    (hlink : u.regs link = image.line 5) :
    image.Runs u { u with sp := u.sp + 16 } := by
  have hcode := hlinked.code
  have hfits := fits_of_linked hlinked
  have hadd := Image.Runs.line hfits hpc (by rw [hcode]; rfl)
  have hnext : (exec image.address (.addSp 16) u).pc = image.line 6 := by
    rw [← line_succ, ← hpc]
    rfl
  have hret : image.Runs (exec image.address (.addSp 16) u)
      (exec image.address .ret (exec image.address (.addSp 16) u)) :=
    Image.Runs.line hfits hnext (by rw [hcode]; rfl)
  have hback : exec image.address .ret (exec image.address (.addSp 16) u) =
      { u with sp := u.sp + 16 } := by
    have hsame : u.regs link = u.pc := hlink.trans hpc.symm
    simp [exec, effect, target, hsame]
  rw [← hback]
  exact hadd.trans hret

theorem runs_rounds
    (hlinked : Linked image asmPrintf printf)
    (hpc : u.pc = image.line 5)
    (hlink : u.regs link = image.line 5)
    (k : Nat) :
    image.Runs u { u with sp := u.sp + BitVec.ofNat 64 (16 * k) } := by
  induction k with
  | zero =>
      have hsame : { u with sp := u.sp + BitVec.ofNat 64 (16 * 0) } = u := by
        simp
      rw [hsame]
      exact Image.Runs.refl
  | succ k ih =>
      have hsp : u.sp + BitVec.ofNat 64 (16 * (k + 1)) =
          u.sp + BitVec.ofNat 64 (16 * k) + 16 := by
        rw [Nat.mul_succ, BitVec.ofNat_add, BitVec.add_assoc]
        rfl
      rw [hsp]
      exact ih.trans (runs_round hlinked hpc hlink)

/-- Up to the call the machine is in the state that the code has led to. -/
def before
    (image : Image Symbol)
    (s : State)
    (i : Nat) :
    State :=
  { after image.address (asmPrintf.take i) s with pc := image.line i }

theorem before_zero
    (hpc : s.pc = image.base) :
    before image s 0 = s := by
  rw [before, line_zero, ← hpc]
  rfl

/-- The instructions in front of the call, and the call itself. -/
theorem exec_before
    {i : Nat}
    (hi : i < 4) :
    ∃ instr, asmPrintf[i]? = some instr ∧
      exec image.address instr (before image s i) = before image s (i + 1) := by
  interval_cases i
  all_goals
    refine ⟨_, rfl, ?_⟩
    simp only [before, ← line_succ]
    rfl

theorem exec_bl :
    exec image.address (.bl .printf) (before image s 4) = calling image s := by
  rw [calling, ← line_succ 4]
  rfl

/-- Where the machine is: in front of the call, in the call, or behind it with the address
there in the link register. -/
def Inside
    (image : Image Symbol)
    (s u : State) :
    Prop :=
  (∃ i, i < 5 ∧ u = before image s i) ∨ u = calling image s ∨
    ((u.pc = image.line 5 ∨ u.pc = image.line 6) ∧ u.regs link = image.line 5)

/-- `printf` has returned, and has left the link register as it was. -/
structure ReturnsByLink
    (s t : State) :
    Prop extends Returns s t where
  link : t.regs link = s.regs link

/-- No step leads out, and there is always one. -/
theorem Inside.step
    (hlinked : Linked image asmPrintf printf)
    (hreturns : ReturnsByLink (calling image s) (printf (calling image s)))
    (h : Inside image s u) :
    ∃ t, image.step u = some t ∧ Inside image s t := by
  have hcode := hlinked.code
  have hfits := fits_of_linked hlinked
  have hline : ∀ {u : State} {i : Nat} {instr : Instr Symbol}, u.pc = image.line i →
      asmPrintf[i]? = some instr → image.step u = some (exec image.address instr u) :=
    fun hpc hinstr => step_line hfits hpc (by rw [hcode]; exact hinstr)
  rcases h with ⟨i, hi, rfl⟩ | rfl | ⟨hpc | hpc, hlink⟩
  · by_cases hcall : i = 4
    · subst hcall
      refine ⟨calling image s, ?_, Or.inr (Or.inl rfl)⟩
      rw [← exec_bl]
      exact hline rfl rfl
    · have hbefore : i < 4 := by omega
      obtain ⟨instr, hinstr, hexec⟩ : ∃ instr, asmPrintf[i]? = some instr ∧
          exec image.address instr (before image s i) = before image s (i + 1) :=
        exec_before hbefore
      refine ⟨before image s (i + 1), ?_, Or.inl ⟨i + 1, by omega, rfl⟩⟩
      rw [← hexec]
      exact hline rfl hinstr
  · refine ⟨printf (calling image s), step_callee hlinked.outside hlinked.callee,
      Or.inr (Or.inr ⟨Or.inl ?_, ?_⟩)⟩
    · exact hreturns.pc.trans regs_called_link
    · exact hreturns.link.trans regs_called_link
  · refine ⟨_, hline hpc rfl, Or.inr (Or.inr ⟨Or.inr ?_, hlink⟩)⟩
    rw [← line_succ, ← hpc]
    rfl
  · exact ⟨_, hline hpc rfl, Or.inr (Or.inr ⟨Or.inl hlink, hlink⟩)⟩

theorem Inside.runs
    (hlinked : Linked image asmPrintf printf)
    (hreturns : ReturnsByLink (calling image s) (printf (calling image s)))
    (h : Inside image s u)
    (hruns : image.Runs u t) :
    Inside image s t := by
  induction hruns with
  | refl =>
      exact h
  | tail _ hstep ih =>
      obtain ⟨v, hv, hinside⟩ := ih.step hlinked hreturns
      cases hv.symm.trans hstep
      exact hinside

/-- The address of the caller is none of those. -/
theorem Inside.ne_caller
    (hlinked : Linked image asmPrintf printf)
    {caller : BitVec 64}
    (houtside : image.fetch caller = none)
    (hprintf : caller ≠ image.address .printf)
    (h : Inside image s u) :
    u.pc ≠ caller := by
  have hcode := hlinked.code
  have hne : ∀ i, i < 7 → image.line i ≠ caller := by
    rintro i hi rfl
    have hlt : i < image.code.length := by
      rw [hcode]
      exact hi
    rw [fetch_line (fits_of_linked hlinked) hlt, List.getElem?_eq_getElem hlt] at houtside
    cases houtside
  rcases h with ⟨i, hi, rfl⟩ | rfl | ⟨hpc | hpc, -⟩
  · exact hne i (by omega)
  · exact hprintf.symm
  · rw [hpc]
    exact hne 5 (by decide)
  · rw [hpc]
    exact hne 6 (by decide)

/-- `main` of `asm-printf.S` prints its number and never returns: it goes on for ever
with the two instructions behind the call, and the stack pointer goes up by 16 each
time. -/
theorem never_returns
    (hlinked : Linked image asmPrintf printf)
    (hreturns : ReturnsByLink (calling image s) (printf (calling image s)))
    (hprints : PrintsInts (calling image s) (printf (calling image s)))
    (hpc : s.pc = image.base)
    (hcaller : image.fetch (s.regs link) = none)
    (hcaller' : s.regs link ≠ image.address .printf)
    (hformat : FormatText.StringAt s.mem (image.address .fmtStr) fmtStr)
    (hapart : Apart (image.address .fmtStr) (fmtStr.length + 1) (s.sp - 16) 16) :
    (∀ t, image.Runs s t → t.pc ≠ s.regs link ∧ (image.step t).isSome = true) ∧
      ∀ k : Nat, ∃ t, image.Runs s t ∧
        t.pc = image.line 5 ∧
        t.sp = s.sp - 16 + BitVec.ofNat 64 (16 * k) ∧
        t.out = s.out ++ hundred := by
  constructor
  · intro t hruns
    have hstart : Inside image s s := Or.inl ⟨0, by decide, (before_zero hpc).symm⟩
    have hinside := hstart.runs hlinked hreturns hruns
    obtain ⟨u, hstep, -⟩ := hinside.step hlinked hreturns
    exact ⟨hinside.ne_caller hlinked hcaller hcaller', Option.isSome_of_eq_some hstep⟩
  · intro k
    have hlink : (calling image s).regs link = image.line 5 := regs_called_link
    have hback := hreturns.pc.trans hlink
    have hrounds := runs_rounds hlinked hback (hreturns.link.trans hlink) k
    refine ⟨_, (runs_call hlinked hpc).trans hrounds, hback, ?_, ?_⟩
    · exact congrArg (· + BitVec.ofNat 64 (16 * k)) hreturns.sp
    · refine hprints hundred ?_
      rw [readString_calling hformat hapart]
      exact formatted_calling

end Loop

section Placed

/-- A `printf` that keeps what it has to and nothing else: it overwrites the registers of
the arguments and the temporary ones, 256 bytes below the stack pointer and the arguments on
the stack. -/
def careless
    (s : State) :
    State where
  regs r := if r ∈ calleeSaved ∨ r = link then s.regs r else 3735928559
  sp := s.sp
  pc := s.regs link
  mem b := if InRange (s.sp - 256) 272 b then 255 else s.mem b
  out := s.out ++
    (FormatText.formatted (variadicInt s)
      (FormatText.readString s.mem (s.regs .x0) (2 ^ 64)) 0).getD []

theorem keeps_careless
    (s : State) :
    Keeps 16 32 s (careless s) where
  pc := rfl
  sp := rfl
  saved r hr := if_pos (Or.inl hr)
  frame b hb := by
    have hapart := apart_of_parts (p := s.sp - 256) (i := 272) (n := 32) (j := 0) (k := 272)
      (Or.inr (by decide)) (by decide) (by decide)
    rw [BitVec.add_zero] at hapart
    refine if_neg (hapart b ?_)
    have hsame : s.sp + BitVec.ofNat 64 16 = s.sp - 256 + BitVec.ofNat 64 272 := by
      rw [show BitVec.ofNat 64 272 = 256 + BitVec.ofNat 64 16 from rfl, ← BitVec.add_assoc,
        BitVec.sub_add_cancel]
    rwa [← hsame]

theorem printsInts_careless
    (s : State) :
    PrintsInts s (careless s) := by
  intro text h
  rw [careless, h]
  rfl

theorem returnsByLink_careless
    (s : State) :
    ReturnsByLink s (careless s) := by
  refine ⟨⟨rfl, rfl⟩, ?_⟩
  simp [careless]

/-- A program at address 2048, with its format at 4096 and `printf` at 8192. -/
def placed
    (code : List (Instr Symbol)) :
    Image Symbol where
  base := 2048
  code := code
  address
    | .fmtStr => 4096
    | .printf => 8192
  callee pc := if pc = 8192 then some careless else none

/-- The entry of a program that is called from address 1024, with the stack at 65536. -/
def entered
    (format : List UInt8) :
    State where
  regs _ := 1024
  sp := 65536
  pc := 2048
  mem b := (format[(b - 4096).toNat]?).getD 0
  out := []

theorem prints_nine_and_returns_placed :
    ∃ t, (placed asmPrintf2).Runs (entered fmtStr2) t ∧ t.pc = 1024 ∧ t.sp = 65536 ∧
      t.regs .x19 = 1024 ∧ t.out = nine := by
  have hlinked : Linked (placed asmPrintf2) asmPrintf2 careless := ⟨rfl, by decide, rfl⟩
  have hapart : Apart (4096 : BitVec 64) 28 (65504 : BitVec 64) 32 :=
    apart_of_parts (p := 0) (i := 4096) (j := 65504) (by decide) (by decide) (by decide)
  obtain ⟨t, hruns, hpc, hsp, hsaved, -, hout⟩ :=
    prints_nine_and_returns (n := 16) (s := entered fmtStr2) hlinked
      (keeps_careless _) (printsInts_careless _) (by decide) rfl (by decide +kernel) hapart
  exact ⟨t, hruns, hpc, hsp, hsaved .x19 (by decide), hout⟩

/-- The third time behind the call, above the stack pointer of the entry. -/
theorem never_returns_placed :
    ∃ t, (placed asmPrintf).Runs (entered fmtStr) t ∧ t.pc ≠ 1024 ∧ t.sp = 65552 ∧
      t.out = hundred := by
  have hlinked : Linked (placed asmPrintf) asmPrintf careless := ⟨rfl, by decide, rfl⟩
  have hapart : Apart (4096 : BitVec 64) 4 (65520 : BitVec 64) 16 :=
    apart_of_parts (p := 0) (i := 4096) (j := 65520) (by decide) (by decide) (by decide)
  obtain ⟨hnever, hloop⟩ :=
    never_returns (s := entered fmtStr) hlinked (returnsByLink_careless _)
      (printsInts_careless _) rfl (by decide) (by decide) (by decide +kernel) hapart
  obtain ⟨t, hruns, -, hsp, hout⟩ := hloop 2
  exact ⟨t, hruns, (hnever t hruns).1, hsp, hout⟩

end Placed

end AsmPrintf
end ArmAsm
end OsSeminars
