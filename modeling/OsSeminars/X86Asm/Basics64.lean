import OsSeminars.Foundation.X64Stack

/-!
# 06-x86-asm/basics-64/very-important.S

`very_important_function` reads `N` numbers with `scanf` and prints each of them
multiplied by an element of the array that the variable `A` points to.

Both functions of the C library are part of the environment. They keep the
registers that the calling convention says they keep, and they may leave anything
in the other ones. `scanf` puts the number it has read where `rsi` points to.
Otherwise neither of them changes what is at or above the frame of the routine,
the variable `A`, or its array; below the frame they do as they like.
-/

namespace OsSeminars
namespace X86Asm
namespace Basics64

open Foundation X64

inductive Label where
  | veryImportantFunction
  | loopBegin
  | loopEnd
deriving DecidableEq

inductive Symbol where
  | scanf
  | printf
  | A
  | inputFmt
  | outputFmt
deriving DecidableEq

/-- `very-important.S`. -/
def veryImportantFunction : List (Assembly.Line Label (Instr Symbol Label)) :=
  [ .label .veryImportantFunction,
    .instr (.push .rbp),
    .instr (.push .r12),
    .instr (.push .r13),
    .instr (.subImm .rsp 16),
    .instr (.mov .r12 .rdi),
    .instr (.movImm .r13 0),
    .label .loopBegin,
    .instr (.cmp .r12 .r13),
    .instr (.jumpIf .zero .loopEnd),
    .instr (.lea .rdi .inputFmt),
    .instr (.mov .rsi .rsp),
    .instr (.call .scanf),
    .instr (.load .rax .rsp),
    .instr (.loadSymbol .r9 .A),
    .instr (.movslq .r9 .r9 .r13),
    .instr (.imul .r9),
    .instr (.mov .rsi .rax),
    .instr (.lea .rdi .outputFmt),
    .instr (.call .printf),
    .instr (.inc .r13),
    .instr (.jump .loopBegin),
    .label .loopEnd,
    .instr (.addImm .rsp 16),
    .instr (.pop .r13),
    .instr (.pop .r12),
    .instr (.pop .rbp),
    .instr .ret ]

/-- A run of the routine. -/
abbrev Runs
    (env : Env Symbol) :
    Assembly.Config (State Symbol) (BitVec 64) →
      Assembly.Config (State Symbol) (BitVec 64) → Prop :=
  Assembly.Runs (exec env) veryImportantFunction

/-- The state on entry, with nothing recorded. -/
def entry
    (regs : Registers)
    (flags : Option Flags)
    (mem : ByteMemory 64) :
    State Symbol where
  regs := regs
  flags := flags
  mem := mem
  accesses := []
  calls := []

/-- The argument `N`. -/
def argN
    (s : State Symbol) :
    Nat :=
  (s.regs .rdi).toNat

/-- The value of the variable `A`. -/
def array
    (env : Env Symbol)
    (s : State Symbol) :
    BitVec 64 :=
  s.word64 (env.address .A)

/-- The element `A[i]`. -/
def element
    (env : Env Symbol)
    (s : State Symbol)
    (i : Nat) :
    BitVec 32 :=
  s.word32 (array env s + BitVec.ofNat 64 (4 * i))

/-- The number of calls of `scanf` so far. -/
def scanfCalls
    (t : State Symbol) :
    Nat :=
  (t.calls.filter (fun c => c.1 = .scanf)).length

/-- The format and the number of each call of `printf`, in order. -/
def printed
    (t : State Symbol) :
    List (BitVec 64 × Int) :=
  (t.calls.filter (fun c => c.1 = .printf)).map (fun c => (c.2 .rdi, (c.2 .rsi).toInt))

/-- What is printed for `x * A[i]`, with the format of the program. -/
def output
    (env : Env Symbol)
    (s : State Symbol)
    (x : Nat → BitVec 64)
    (i : Nat) :
    BitVec 64 × Int :=
  (env.address .outputFmt, ((x i).toInt * (element env s i).toInt).bmod (2 ^ 64))

section Environment

/-- The variable `A` and the first `N` elements of its array. -/
def Global
    (env : Env Symbol)
    (s : State Symbol)
    (b : BitVec 64) :
    Prop :=
  InRange (env.address .A) 8 b ∨ InRange (array env s) (4 * argN s) b

/-- What belongs to the routine and its caller: the frame, the return address, and
the data. -/
def Kept
    (env : Env Symbol)
    (s : State Symbol)
    (b : BitVec 64) :
    Prop :=
  InRange (s.regs .rsp - 40) 48 b ∨ Global env s b

/-- A called function is entered, its return address below the frame. -/
def Entered
    (s t : State Symbol) :
    Prop :=
  t.regs .rsp = s.regs .rsp - 48

/-- The registers that a called function restores. -/
def calleeSaved : List Reg :=
  [.rbx, .rbp, .r12, .r13, .r14, .r15]

/-- The C library, with `x k` the number that the call `k` of `scanf` converts. -/
structure Library
    (env : Env Symbol)
    (s : State Symbol)
    (x : Nat → BitVec 64) : Prop where
  saved : ∀ f t, f = .scanf ∨ f = .printf → Entered s t →
    ∀ r ∈ calleeSaved, (env.call f t).1 r = t.regs r
  returns : ∀ f t, f = .scanf ∨ f = .printf → Entered s t →
    (env.call f t).1 .rsp = t.regs .rsp + 8
  converts : ∀ t, Entered s t → t.regs .rdi = env.address .inputFmt →
    BitVec.ofNat 64 ((env.call .scanf t).2.load (t.regs .rsi) 8) = x (scanfCalls t - 1)
  scanf_keeps : ∀ t b, Entered s t → Kept env s b → ¬ InRange (t.regs .rsi) 8 b →
    (env.call .scanf t).2 b = t.mem b
  printf_keeps : ∀ t b, Entered s t → Kept env s b → (env.call .printf t).2 b = t.mem b

/-- The data does not lie on the part of the stack that the routine uses. -/
def DataApart
    (env : Env Symbol)
    (s : State Symbol) :
    Prop :=
  ∀ b, Global env s b → ¬ InRange (s.regs .rsp - 48) 48 b

end Environment

section Invariant

variable {env : Env Symbol} {s t : State Symbol} {x : Nat → BitVec 64} {i : Nat}

/-- The state in which a called function is entered. -/
def entered
    (env : Env Symbol)
    (f : Symbol)
    (t : State Symbol) :
    State Symbol :=
  { t.push (env.link t) with calls := t.calls ++ [(f, t.regs)] }

/-- The state behind a call. -/
def called
    (env : Env Symbol)
    (f : Symbol)
    (t : State Symbol) :
    State Symbol :=
  (entered env f t).afterOutside (env.call f (entered env f t))

/-- The frame of the routine, entered in `s`: its words above the local slot are
the saved registers and the return address. -/
structure Frame
    (env : Env Symbol)
    (s t : State Symbol) : Prop where
  rsp : t.regs .rsp = s.regs .rsp - 40
  r12 : t.regs .r12 = s.regs .rdi
  words : WordsAt t.mem (s.regs .rsp - 24)
    [s.regs .r13, s.regs .r12, s.regs .rbp, s.word64 (s.regs .rsp)]
  data : ∀ b, Global env s b → t.mem b = s.mem b

/-- The loop, with `n` numbers converted and `i` products printed. -/
structure Progress
    (env : Env Symbol)
    (s : State Symbol)
    (x : Nat → BitVec 64)
    (n i : Nat)
    (t : State Symbol) : Prop where
  frame : Frame env s t
  r13 : t.regs .r13 = BitVec.ofNat 64 i
  scanfs : scanfCalls t = n
  prints : printed t = (List.range i).map (output env s x)
  aligned : ∀ c ∈ t.calls, c.2 .rsp = s.regs .rsp - 40

/-- Instructions that touch neither the frame nor the counter keep the progress. -/
theorem Progress.congr
    {n : Nat}
    {u : State Symbol}
    (h : Progress env s x n i t)
    (hrsp : u.regs .rsp = t.regs .rsp)
    (hr12 : u.regs .r12 = t.regs .r12)
    (hr13 : u.regs .r13 = t.regs .r13)
    (hmem : u.mem = t.mem)
    (hcalls : u.calls = t.calls) :
    Progress env s x n i u where
  frame :=
    { rsp := hrsp.trans h.frame.rsp
      r12 := hr12.trans h.frame.r12
      words := hmem ▸ h.frame.words
      data := hmem ▸ h.frame.data }
  r13 := hr13.trans h.r13
  scanfs := by
    rw [scanfCalls, hcalls]
    exact h.scanfs
  prints := by
    rw [printed, hcalls]
    exact h.prints
  aligned := hcalls ▸ h.aligned

theorem entered_rsp
    (env : Env Symbol)
    (h : t.regs .rsp = s.regs .rsp - 40)
    (f : Symbol) :
    Entered s (entered env f t) := by
  show t.regs .rsp - 8 = s.regs .rsp - 48
  rw [h, BitVec.sub_sub]
  rfl

/-- The push of a call is below everything that is kept. -/
theorem entered_mem
    (hdata : DataApart env s)
    (h : t.regs .rsp = s.regs .rsp - 40)
    (f : Symbol)
    {b : BitVec 64}
    (hb : Kept env s b) :
    (entered env f t).mem b = t.mem b := by
  have hslot : t.regs .rsp - 8 = s.regs .rsp - 48 := entered_rsp env h f
  refine ByteMemory.store_outside ?_
  rw [hslot]
  rcases hb with hframe | hglobal
  · have hapart := apart_of_parts (p := s.regs .rsp - 48) (i := 0) (n := 8) (j := 8) (k := 48)
      (Or.inl (by decide)) (by decide) (by decide)
    rw [BitVec.add_zero, show s.regs .rsp - 48 + BitVec.ofNat 64 8 = s.regs .rsp - 40 from
      sub_add_ofNat (n := 48) _ (by decide)] at hapart
    exact fun hin => hapart b hin hframe
  · exact fun hin => hdata b hglobal (inRange_mono hin (by decide))

/-- The saved words and the return address are kept, and they are not the local slot. -/
theorem kept_of_words
    {b : BitVec 64}
    (hb : InRange (s.regs .rsp - 24) 32 b) :
    Kept env s b ∧ ¬ InRange (s.regs .rsp - 40) 8 b := by
  have hsplit : s.regs .rsp - 40 + BitVec.ofNat 64 16 = s.regs .rsp - 24 :=
    sub_add_ofNat (n := 40) _ (by decide)
  rw [← hsplit] at hb
  constructor
  · exact Or.inl (inRange_of_part hb (by decide))
  · have hapart := apart_of_parts (p := s.regs .rsp - 40) (i := 16) (n := 32) (j := 0) (k := 8)
      (Or.inr (by decide)) (by decide) (by decide)
    rw [BitVec.add_zero] at hapart
    exact hapart b hb

theorem kept_of_global
    (hdata : DataApart env s)
    {b : BitVec 64}
    (hb : Global env s b) :
    Kept env s b ∧ ¬ InRange (s.regs .rsp - 40) 8 b :=
  ⟨Or.inr hb, fun hin => hdata b hb (inRange_below (i := 40) (by decide) (by decide) hin)⟩

/-- A call leaves the frame as it is, provided that the function changes at most the
local slot. -/
theorem frame_call
    {f : Symbol}
    (hlib : Library env s x)
    (hdata : DataApart env s)
    (hf : f = .scanf ∨ f = .printf)
    (h : Frame env s t)
    (hkeeps : ∀ b, Kept env s b → ¬ InRange (s.regs .rsp - 40) 8 b →
      (env.call f (entered env f t)).2 b = (entered env f t).mem b) :
    Frame env s (called env f t) ∧ (called env f t).regs .r13 = t.regs .r13 := by
  have hentered : Entered s (entered env f t) := entered_rsp env h.rsp f
  have hsaved := hlib.saved f _ hf hentered
  have hmem : ∀ b, Kept env s b ∧ ¬ InRange (s.regs .rsp - 40) 8 b →
      (called env f t).mem b = t.mem b :=
    fun b hb => (hkeeps b hb.1 hb.2).trans (entered_mem hdata h.rsp f hb.1)
  refine ⟨?_, hsaved .r13 (by decide)⟩
  constructor
  · have hback : s.regs .rsp - 48 + 8 = s.regs .rsp - 40 :=
      sub_add_ofNat (n := 48) _ (by decide : 8 ≤ 48)
    rw [← hback, ← hentered]
    exact hlib.returns f _ hf hentered
  · exact (hsaved .r12 (by decide)).trans h.r12
  · exact wordsAt_congr (fun b hb => (hmem b (kept_of_words hb)).symm) h.words
  · exact fun b hb => (hmem b (kept_of_global hdata hb)).trans (h.data b hb)

end Invariant

section Loop

variable {env : Env Symbol} {s t : State Symbol} {x : Nat → BitVec 64} {i : Nat}

theorem scanfCalls_called
    (env : Env Symbol)
    (f : Symbol)
    (t : State Symbol) :
    scanfCalls (called env f t) = scanfCalls t + if f = .scanf then 1 else 0 := by
  unfold scanfCalls
  rw [show (called env f t).calls = t.calls ++ [(f, t.regs)] from rfl, List.filter_append,
    List.length_append]
  split <;> simp_all

theorem printed_called
    (env : Env Symbol)
    (f : Symbol)
    (t : State Symbol) :
    printed (called env f t) =
      printed t ++ if f = .printf then [(t.regs .rdi, (t.regs .rsi).toInt)] else [] := by
  unfold printed
  rw [show (called env f t).calls = t.calls ++ [(f, t.regs)] from rfl, List.filter_append,
    List.map_append]
  split <;> simp_all

/-- A call adds its own record to those with the stack pointer of the frame. -/
theorem aligned_called
    (env : Env Symbol)
    {f : Symbol}
    (hrsp : t.regs .rsp = s.regs .rsp - 40)
    (h : ∀ c ∈ t.calls, c.2 .rsp = s.regs .rsp - 40) :
    ∀ c ∈ (called env f t).calls, c.2 .rsp = s.regs .rsp - 40 := by
  intro c hc
  rcases List.mem_append.mp hc with hold | hnew
  · exact h c hold
  · rw [List.mem_singleton.mp hnew]
    exact hrsp

theorem runs_scanf
    (hlib : Library env s x)
    (hdata : DataApart env s)
    (h : Progress env s x i i t) :
    ∃ u, Runs env (.running 10 t) (.running 13 u) ∧ Progress env s x (i + 1) i u ∧
      u.word64 (u.regs .rsp) = x i := by
  let before := (t.set .rdi (env.address .inputFmt)).set .rsi (t.regs .rsp)
  have hbefore : Progress env s x i i before := h.congr rfl rfl rfl rfl rfl
  have hentered : Entered s (entered env .scanf before) :=
    entered_rsp env hbefore.frame.rsp .scanf
  have hslot : (entered env .scanf before).regs .rsi = s.regs .rsp - 40 := h.frame.rsp
  obtain ⟨hcalled, hr13⟩ := frame_call hlib hdata (Or.inl rfl) hbefore.frame
    (fun b hb hout => hlib.scanf_keeps _ b hentered hb (by rw [hslot]; exact hout))
  have hcount : scanfCalls (entered env .scanf before) = i + 1 := by
    refine (scanfCalls_called env .scanf before).trans ?_
    rw [if_pos rfl]
    exact congrArg (· + 1) h.scanfs
  have hblock : Runs env (.running 10 t) _ :=
    Assembly.Runs.block [.lea .rdi .inputFmt, .mov .rsi .rsp, .call .scanf] ⟨_, rfl⟩ rfl
  refine ⟨called env .scanf before, hblock, ?_, ?_⟩
  · constructor
    · exact hcalled
    · exact hr13.trans h.r13
    · exact hcount
    · rw [printed_called, if_neg (by decide), List.append_nil]
      exact h.prints
    · exact aligned_called env hbefore.frame.rsp h.aligned
  · have hconverts := hlib.converts _ hentered rfl
    rw [hcount, Nat.add_sub_cancel, hslot, ← hcalled.rsp] at hconverts
    exact hconverts

/-- The variable `A` and the array are as on entry. -/
theorem element_read
    (hi : i < argN s)
    (h : Frame env s t) :
    t.word64 (env.address .A) = array env s ∧
      t.word32 (array env s + BitVec.ofNat 64 i * 4) = element env s i := by
  constructor
  · exact congrArg (BitVec.ofNat 64)
      (ByteMemory.load_congr (fun b hb => h.data b (Or.inl hb)))
  · have hscaled : BitVec.ofNat 64 i * 4 = BitVec.ofNat 64 (4 * i) := by
      rw [Nat.mul_comm, BitVec.ofNat_mul]
      rfl
    rw [hscaled]
    exact congrArg (BitVec.ofNat 32) (ByteMemory.load_congr
      (fun b hb => h.data b (Or.inr (inRange_of_part hb (by omega)))))

theorem runs_loads
    (hi : i < argN s)
    (h : Progress env s x (i + 1) i t)
    (hslot : t.word64 (t.regs .rsp) = x i) :
    ∃ u, Runs env (.running 13 t) (.running 16 u) ∧ Progress env s x (i + 1) i u ∧
      u.regs .rax = x i ∧ u.regs .r9 = (element env s i).signExtend 64 := by
  obtain ⟨hA, helement⟩ := element_read hi h.frame
  have hblock : Runs env (.running 13 t) _ :=
    Assembly.Runs.block [.load .rax .rsp, .loadSymbol .r9 .A, .movslq .r9 .r9 .r13] ⟨_, rfl⟩ rfl
  refine ⟨_, hblock, h.congr rfl rfl rfl rfl rfl, hslot, ?_⟩
  show (t.word32 (t.word64 (env.address .A) + t.regs .r13 * 4)).signExtend 64 = _
  rw [hA, h.r13, helement]

theorem runs_multiply
    (h : Progress env s x (i + 1) i t)
    (hrax : t.regs .rax = x i)
    (hr9 : t.regs .r9 = (element env s i).signExtend 64) :
    ∃ u, Runs env (.running 16 t) (.running 19 u) ∧ Progress env s x (i + 1) i u ∧
      (u.regs .rdi, (u.regs .rsi).toInt) = output env s x i := by
  have hblock : Runs env (.running 16 t) _ :=
    Assembly.Runs.block [.imul .r9, .mov .rsi .rax, .lea .rdi .outputFmt] ⟨_, rfl⟩ rfl
  refine ⟨_, hblock, h.congr rfl rfl rfl rfl rfl, ?_⟩
  show (env.address .outputFmt,
    (BitVec.ofInt 64 ((t.regs .rax).toInt * (t.regs .r9).toInt)).toInt) = _
  rw [hrax, hr9, BitVec.toInt_signExtend_of_le (by decide), BitVec.toInt_ofInt, output]

theorem runs_printf
    (hlib : Library env s x)
    (hdata : DataApart env s)
    (h : Progress env s x (i + 1) i t)
    (harguments : (t.regs .rdi, (t.regs .rsi).toInt) = output env s x i) :
    ∃ u, Runs env (.running 19 t) (.running 7 u) ∧ Progress env s x (i + 1) (i + 1) u := by
  have hentered : Entered s (entered env .printf t) := entered_rsp env h.frame.rsp .printf
  obtain ⟨hcalled, hr13⟩ := frame_call hlib hdata (Or.inr rfl) h.frame
    (fun b hb _ => hlib.printf_keeps _ b hentered hb)
  have hblock : Runs env (.running 19 t) _ :=
    Assembly.Runs.block [.call .printf, .inc .r13] ⟨_, rfl⟩ rfl
  refine ⟨_, hblock.trans (Assembly.Runs.jump rfl rfl rfl), ?_⟩
  constructor
  · exact ⟨hcalled.rsp, hcalled.r12, hcalled.words, hcalled.data⟩
  · show (called env .printf t).regs .r13 + 1 = _
    rw [hr13, h.r13, BitVec.ofNat_add]
    rfl
  · refine (scanfCalls_called env .printf t).trans ?_
    rw [if_neg (by decide)]
    exact h.scanfs
  · refine (printed_called env .printf t).trans ?_
    rw [if_pos rfl, harguments, h.prints, List.range_succ, List.map_append]
    rfl
  · exact aligned_called env (f := .printf) h.frame.rsp h.aligned

/-- The comparison at the start of the loop. -/
theorem runs_compare
    (h : Progress env s x i i t)
    (hi : i ≤ argN s) :
    ∃ u, Runs env (.running 7 t) (.running (if i = argN s then 22 else 10) u) ∧
      Progress env s x i i u := by
  let compared := t.setFlags (some (subFlags (t.regs .r12) (t.regs .r13)))
  have hzero : Cond.zero.holds (subFlags (t.regs .r12) (t.regs .r13)) = decide (i = argN s) := by
    have hlt : argN s < 2 ^ 64 := (s.regs .rdi).isLt
    rw [zero_holds_subFlags, h.frame.r12, h.r13, decide_eq_decide, ← BitVec.toNat_inj,
      BitVec.toNat_ofNat, Nat.mod_eq_of_lt (by omega)]
    exact eq_comm
  have hcompare : Runs env (.running 7 t) (.running 9 compared) :=
    (Assembly.Runs.label rfl).trans (Assembly.Runs.next rfl rfl)
  refine ⟨compared, ?_, h.congr rfl rfl rfl rfl rfl⟩
  split
  · next hend =>
      exact hcompare.trans (Assembly.Runs.jump rfl
        (exec_jumpIf_of_holds rfl (hzero.trans (decide_eq_true hend))) rfl)
  · next hmore =>
      exact hcompare.trans (Assembly.Runs.next rfl
        (exec_jumpIf_of_not_holds rfl (hzero.trans (decide_eq_false hmore))))

/-- One pass of the loop converts one number and prints one product. -/
theorem runs_pass
    (hlib : Library env s x)
    (hdata : DataApart env s)
    (hi : i < argN s)
    (h : Progress env s x i i t) :
    ∃ u, Runs env (.running 7 t) (.running 7 u) ∧ Progress env s x (i + 1) (i + 1) u := by
  obtain ⟨t₁, hrun₁, h₁⟩ := runs_compare h (Nat.le_of_lt hi)
  rw [if_neg (Nat.ne_of_lt hi)] at hrun₁
  obtain ⟨t₂, hrun₂, h₂, hslot⟩ := runs_scanf hlib hdata h₁
  obtain ⟨t₃, hrun₃, h₃, hrax, hr9⟩ := runs_loads hi h₂ hslot
  obtain ⟨t₄, hrun₄, h₄, harguments⟩ := runs_multiply h₃ hrax hr9
  obtain ⟨t₅, hrun₅, h₅⟩ := runs_printf hlib hdata h₄ harguments
  exact ⟨t₅, hrun₁.trans (hrun₂.trans (hrun₃.trans (hrun₄.trans hrun₅))), h₅⟩

theorem runs_passes
    (hlib : Library env s x)
    (hdata : DataApart env s)
    (h : Progress env s x 0 0 t)
    (hi : i ≤ argN s) :
    ∃ u, Runs env (.running 7 t) (.running 7 u) ∧ Progress env s x i i u := by
  induction i with
  | zero =>
      exact ⟨t, Assembly.Runs.refl _, h⟩
  | succ i ih =>
      obtain ⟨u, hrun, hu⟩ := ih (by omega)
      obtain ⟨v, hpass, hv⟩ := runs_pass hlib hdata (by omega) hu
      exact ⟨v, hrun.trans hpass, hv⟩

end Loop

section Ends

variable {env : Env Symbol} {s t : State Symbol} {x : Nat → BitVec 64}

/-- The return address is behind the three saved registers. -/
theorem behind_words
    (p : BitVec 64) :
    p - 24 + 8 + 8 + 8 = p := by
  ring

/-- The saved registers and the return address after the pushes. -/
theorem words_of_pushes
    (h : OwnStack (s.regs .rsp) 3 s.mem [s.regs .r13, s.regs .r12, s.regs .rbp] t) :
    WordsAt t.mem (s.regs .rsp - 24)
      [s.regs .r13, s.regs .r12, s.regs .rbp, s.word64 (s.regs .rsp)] := by
  have hwords := h.words
  rw [h.rsp] at hwords
  obtain ⟨hr13, hr12, hrbp, -⟩ := hwords
  refine ⟨hr13, hr12, hrbp, ?_, trivial⟩
  rw [behind_words]
  exact congrArg (BitVec.ofNat 64) (ByteMemory.load_congr
    (fun b hb => h.outside b (not_inRange_below (by decide) hb)))

theorem runs_prologue
    (hdata : DataApart env s)
    (hcalls : s.calls = []) :
    ∃ t, Runs env (.running 0 s) (.running 7 t) ∧ Progress env s x 0 0 t := by
  obtain ⟨t, hpushes, hstack, hkept, hnone⟩ :=
    runBlock_pushes (L := Label) env [.rbp, .r12, .r13] (by decide) (by decide)
      (ownStack_entry 3 (by decide) s)
  have hblock : Runs env (.running 4 t) _ :=
    Assembly.Runs.block [.subImm .rsp 16, .mov .r12 .rdi, .movImm .r13 0] ⟨_, rfl⟩ rfl
  refine ⟨_, (Assembly.Runs.label rfl).trans
    ((Assembly.Runs.block _ ⟨_, rfl⟩ hpushes).trans hblock), ?_⟩
  have hdata' : ∀ b, Global env s b → t.mem b = s.mem b := fun b hb =>
    hstack.outside b (fun hin => hdata b hb (inRange_below (by decide) (by decide) hin))
  constructor
  · constructor
    · show t.regs .rsp - 16 = s.regs .rsp - 40
      rw [hstack.rsp, BitVec.sub_sub]
      rfl
    · exact hkept .rdi (by decide)
    · exact words_of_pushes (t := t) hstack
    · exact hdata'
  · rfl
  · show scanfCalls t = 0
    rw [scanfCalls, hnone, hcalls]
    rfl
  · show printed t = []
    rw [printed, hnone, hcalls]
    rfl
  · show ∀ c ∈ t.calls, c.2 .rsp = s.regs .rsp - 40
    rw [hnone, hcalls]
    simp

/-- What the routine leaves when it returns. -/
structure Returned
    (env : Env Symbol)
    (s : State Symbol)
    (x : Nat → BitVec 64)
    (t : State Symbol) : Prop where
  prints : printed t = (List.range (argN s)).map (output env s x)
  aligned : ∀ c ∈ t.calls, c.2 .rsp = s.regs .rsp - 40
  restored : ∀ r ∈ [Reg.r13, .r12, .rbp], t.regs r = s.regs r
  rsp : t.regs .rsp = s.regs .rsp + 8
  returnAddress : t.word64 (s.regs .rsp) = s.word64 (s.regs .rsp)

theorem runs_epilogue
    (h : Progress env s x (argN s) (argN s) t) :
    ∃ u, Runs env (.running 22 t) (.returned (s.word64 (s.regs .rsp)) u) ∧
      Returned env s x u := by
  let popping := (t.set .rsp (t.regs .rsp + 16)).setFlags (some (addFlags (t.regs .rsp) 16))
  have hrsp : popping.regs .rsp = s.regs .rsp - 24 := by
    show t.regs .rsp + 16 = s.regs .rsp - 24
    rw [h.frame.rsp]
    exact sub_add_ofNat (n := 40) _ (by decide : 16 ≤ 40)
  obtain ⟨hr13, hr12, hrbp, hreturn, -⟩ := h.frame.words
  have hstack : OwnStack (s.regs .rsp) 3 t.mem
      ([s.regs .r13, s.regs .r12, s.regs .rbp] ++ []) popping := by
    constructor
    · exact hrsp
    · rw [hrsp]
      exact ⟨hr13, hr12, hrbp, trivial⟩
    · exact Nat.le_refl 3
    · decide
    · exact fun _ _ => rfl
  obtain ⟨u, hpops, hempty, hmap, -, hmem, hcalls⟩ :=
    runBlock_pops (L := Label) env [.r13, .r12, .rbp] (by decide) (by decide) rfl hstack
  have htop : u.regs .rsp = s.regs .rsp := by
    rw [hempty.rsp, List.length_nil, BitVec.sub_zero]
  have haddress : u.word64 (s.regs .rsp) = s.word64 (s.regs .rsp) := by
    rw [behind_words] at hreturn
    rw [State.word64, hmem]
    exact hreturn
  have hret : exec env (.ret : Instr Symbol Label) u =
      some ((u.noteRead (s.regs .rsp) 8).set .rsp (s.regs .rsp + 8),
        .leave (s.word64 (s.regs .rsp))) := by
    rw [exec, htop, haddress]
  refine ⟨_, (Assembly.Runs.label rfl).trans ((Assembly.Runs.next rfl rfl).trans
    ((Assembly.Runs.block _ ⟨_, rfl⟩ hpops).trans (Assembly.Runs.leave rfl hret))), ?_⟩
  constructor
  · show printed u = _
    rw [printed, hcalls]
    exact h.prints
  · show ∀ c ∈ u.calls, _
    rw [hcalls]
    exact h.aligned
  · intro r hr
    have hne : r ≠ .rsp := fun heq => absurd (heq ▸ hr) (by decide)
    show Function.update u.regs .rsp (s.regs .rsp + 8) r = s.regs r
    rw [Function.update_of_ne hne]
    exact (List.map_inj_left.mp hmap) r hr
  · rfl
  · exact haddress

end Ends

/--
The routine prints the products in order and returns to its caller with `rbp`,
`r12`, `r13` and the stack pointer restored. Both functions are called with an
aligned stack if the routine itself is.
-/
theorem prints_products
    (env : Env Symbol)
    (regs : Registers)
    (flags : Option Flags)
    (mem : ByteMemory 64)
    (x : Nat → BitVec 64)
    (hlib : Library env (entry regs flags mem) x)
    (hdata : DataApart env (entry regs flags mem)) :
    ∃ t, Runs env (.running 0 (entry regs flags mem))
        (.returned (BitVec.ofNat 64 (mem.load (regs .rsp) 8)) t) ∧
      printed t = (List.range (regs .rdi).toNat).map (fun i =>
        (env.address .outputFmt,
          ((x i).toInt * (element env (entry regs flags mem) i).toInt).bmod (2 ^ 64))) ∧
      ((regs .rsp).toNat % 16 = 8 → ∀ c ∈ t.calls, (c.2 .rsp).toNat % 16 = 0) ∧
      t.regs .rbp = regs .rbp ∧ t.regs .r12 = regs .r12 ∧ t.regs .r13 = regs .r13 ∧
      t.regs .rsp = regs .rsp + 8 ∧
      t.mem.load (regs .rsp) 8 = mem.load (regs .rsp) 8 := by
  obtain ⟨t₁, hprologue, h₁⟩ := runs_prologue (x := x) hdata rfl
  obtain ⟨t₂, hloop, h₂⟩ := runs_passes hlib hdata h₁ (Nat.le_refl _)
  obtain ⟨t₃, hend, h₃⟩ := runs_compare h₂ (Nat.le_refl _)
  rw [if_pos rfl] at hend
  obtain ⟨t, hepilogue, ht⟩ := runs_epilogue h₃
  have hreturn :
      t.mem.load (regs .rsp) 8 = (entry regs flags mem).mem.load (regs .rsp) 8 :=
    State.load_eq_of_word64 ht.returnAddress
  refine ⟨t, hprologue.trans (hloop.trans (hend.trans hepilogue)), ht.prints, ?_,
    ht.restored .rbp (by decide), ht.restored .r12 (by decide), ht.restored .r13 (by decide),
    ht.rsp, hreturn⟩
  intro haligned c hc
  have hsp : c.2 .rsp = regs .rsp - 40 := ht.aligned c hc
  rw [hsp, BitVec.toNat_sub]
  have hlit : (40 : BitVec 64).toNat = 40 := rfl
  omega

section TwoNumbers

/-- `N` is 2, and the stack pointer is 4104. -/
def twoPasses : Registers
  | .rdi => 2
  | .rsp => 4104
  | _ => 0

/-- The variable `A` at 8192 points to 12288, where the array has the elements 3 and 4. -/
def twoElements : ByteMemory 64 :=
  fun b =>
    if b = 8193 then 48 else if b = 12288 then 3 else if b = 12292 then 4 else 0

/-- The numbers of the input. -/
def fiveAndMinusSeven
    (k : Nat) :
    BitVec 64 :=
  if k = 0 then 5 else -7

/-- The registers behind a call that destroys what it may. -/
def clobbered
    (t : State Symbol) :
    Registers :=
  fun r =>
    if r = .rsp then t.regs .rsp + 8
    else if r ∈ calleeSaved then t.regs r
    else 77

/-- A library whose `scanf` converts the numbers of an input one after another. -/
def converting
    (x : Nat → BitVec 64) :
    Env Symbol where
  address
    | .A => 8192
    | .inputFmt => 16384
    | .outputFmt => 16400
    | _ => 0
  link := fun _ => 0
  call
    | .scanf, t => (clobbered t, t.mem.store (t.regs .rsi) 8 (x (scanfCalls t - 1)).toNat)
    | _, t => (clobbered t, t.mem)
  syscall := fun t => (t.regs, t.mem)

theorem converting_library
    (x : Nat → BitVec 64)
    (s : State Symbol) :
    Library (converting x) s x where
  saved := by
    intro f t hf _ r hr
    have hne : r ≠ .rsp := fun heq => absurd (heq ▸ hr) (by decide)
    have hclobbered : clobbered t r = t.regs r := by
      rw [clobbered, if_neg hne, if_pos hr]
    rcases hf with rfl | rfl
    · exact hclobbered
    · exact hclobbered
  returns := by
    rintro f t (rfl | rfl) _
    · rfl
    · rfl
  converts := by
    intro t _ _
    have hbound : (x (scanfCalls t - 1)).toNat < 256 ^ 8 := (x (scanfCalls t - 1)).isLt
    show BitVec.ofNat 64 ((t.mem.store (t.regs .rsi) 8 (x (scanfCalls t - 1)).toNat).load
      (t.regs .rsi) 8) = x (scanfCalls t - 1)
    rw [ByteMemory.load_store_same (by decide), Nat.mod_eq_of_lt hbound, BitVec.ofNat_toNat,
      BitVec.setWidth_eq]
  scanf_keeps := fun t b _ _ hout => ByteMemory.store_outside hout
  printf_keeps := fun _ _ _ _ => rfl

theorem twoElements_apart :
    DataApart (converting fiveAndMinusSeven) (entry twoPasses none twoElements) := by
  have harray : array (converting fiveAndMinusSeven) (entry twoPasses none twoElements) =
      12288 := by
    decide
  have hA := apart_of_parts (p := (4056 : BitVec 64)) (i := 4136) (n := 8) (j := 0) (k := 48)
    (Or.inr (by decide)) (by decide) (by decide)
  have helements := apart_of_parts (p := (4056 : BitVec 64)) (i := 8232) (n := 8) (j := 0)
    (k := 48) (Or.inr (by decide)) (by decide) (by decide)
  rintro b (hb | hb)
  · exact hA b hb
  · rw [harray] at hb
    exact helements b hb

theorem prints_products_twoNumbers :
    ∃ t, Runs (converting fiveAndMinusSeven)
        (.running 0 (entry twoPasses none twoElements)) (.returned 0 t) ∧
      printed t = [(16400, 15), (16400, -28)] := by
  obtain ⟨t, hrun, hprinted, -⟩ :=
    prints_products (converting fiveAndMinusSeven) twoPasses none twoElements
      fiveAndMinusSeven (converting_library _ _) twoElements_apart
  refine ⟨t, hrun, hprinted.trans ?_⟩
  decide +kernel

end TwoNumbers

end Basics64
end X86Asm
end OsSeminars
