import OsSeminars.Foundation.X64

/-!
# Foundation: the stack of a routine

A routine that has pushed words `vs` on a stack with top `p` owns the words below
`p`. `OwnStack p depth m vs s` says that the words `vs` are on the stack of `s`,
the last one first, and that the memory differs from `m` only in the `depth`
words below `p`.

Pushes and pops keep this, with the list of words as a stack. So a block of pops
gives the registers the words on top of the stack in order, whatever the
registers were that the words came from.
-/

namespace OsSeminars
namespace Foundation
namespace X64

universe u v

/-- The words from address `p` on. -/
def WordsAt
    (m : ByteMemory 64)
    (p : BitVec 64) :
    List (BitVec 64) → Prop
  | [] => True
  | v :: vs => BitVec.ofNat 64 (m.load p 8) = v ∧ WordsAt m (p + 8) vs

section Words

variable {m m' : ByteMemory 64} {p v : BitVec 64} {vs : List (BitVec 64)}

theorem wordsAt_congr
    (hsame : ∀ b, InRange p (8 * vs.length) b → m b = m' b)
    (h : WordsAt m p vs) :
    WordsAt m' p vs := by
  induction vs generalizing p with
  | nil =>
      trivial
  | cons v vs ih =>
      obtain ⟨hhead, htail⟩ := h
      rw [List.length_cons] at hsame
      constructor
      · rw [← hhead]
        exact congrArg (BitVec.ofNat 64) (ByteMemory.load_congr
          (fun b hb => (hsame b (inRange_mono hb (by omega))).symm))
      · exact ih (fun b hb => hsame b (inRange_of_part (i := 8) hb (by omega))) htail

/-- A word stored below the words joins them. -/
theorem wordsAt_store
    (hfits : 8 * (vs.length + 1) ≤ 2 ^ 64)
    (h : WordsAt m p vs) :
    WordsAt (m.store (p - 8) 8 v.toNat) (p - 8) (v :: vs) := by
  have hback : p - 8 + 8 = p := BitVec.sub_add_cancel p 8
  constructor
  · have hbound : v.toNat < 256 ^ 8 := v.isLt
    rw [ByteMemory.load_store_same (by decide), Nat.mod_eq_of_lt hbound, BitVec.ofNat_toNat,
      BitVec.setWidth_eq]
  · rw [hback]
    refine wordsAt_congr (fun b hb => (ByteMemory.store_outside ?_).symm) h
    have hapart := apart_of_parts (p := p - 8) (i := 0) (n := 8) (j := 8)
      (k := 8 * vs.length) (Or.inl (by omega)) (by decide) (by omega)
    rw [BitVec.add_zero, show BitVec.ofNat 64 8 = 8 from rfl, hback] at hapart
    exact fun hb' => hapart b hb' hb

end Words

/-- Going up inside the block below `p`. -/
theorem sub_add_ofNat
    (p : BitVec 64)
    {n k : Nat}
    (hk : k ≤ n) :
    p - BitVec.ofNat 64 n + BitVec.ofNat 64 k = p - BitVec.ofNat 64 (n - k) := by
  have hsum : BitVec.ofNat 64 n = BitVec.ofNat 64 (n - k) + BitVec.ofNat 64 k := by
    rw [← BitVec.ofNat_add, Nat.sub_add_cancel hk]
  rw [hsum]
  ring

/-- A range below `p` is a part of any larger block that ends at `p`. -/
theorem inRange_below
    {p b : BitVec 64}
    {i n k : Nat}
    (hn : n ≤ i)
    (hi : i ≤ k)
    (h : InRange (p - BitVec.ofNat 64 i) n b) :
    InRange (p - BitVec.ofNat 64 k) k b := by
  have hsplit := sub_add_ofNat p (Nat.sub_le k i)
  rw [Nat.sub_sub_self hi] at hsplit
  rw [← hsplit] at h
  exact inRange_of_part h (by omega)

/-- What is at `p` or above is not in a block that ends at `p`. -/
theorem not_inRange_below
    {p b : BitVec 64}
    {n k : Nat}
    (hfits : k + n ≤ 2 ^ 64)
    (h : InRange p n b) :
    ¬ InRange (p - BitVec.ofNat 64 k) k b := by
  have hapart := apart_of_parts (p := p - BitVec.ofNat 64 k) (i := k) (n := n) (j := 0) (k := k)
    (Or.inr (by omega)) hfits (by omega)
  rw [BitVec.add_zero, BitVec.sub_add_cancel] at hapart
  exact hapart b h

variable {S : Type u} {L : Type v}

/-- The stack of a routine, with `p` the stack pointer on entry. -/
structure OwnStack
    (p : BitVec 64)
    (depth : Nat)
    (m : ByteMemory 64)
    (vs : List (BitVec 64))
    (s : State S) : Prop where
  rsp : s.regs .rsp = p - BitVec.ofNat 64 (8 * vs.length)
  words : WordsAt s.mem (s.regs .rsp) vs
  depth_le : vs.length ≤ depth
  fits : 8 * depth ≤ 2 ^ 64
  outside : ∀ b, ¬ InRange (p - BitVec.ofNat 64 (8 * depth)) (8 * depth) b → s.mem b = m b

section Rules

variable
  {p : BitVec 64}
  {depth : Nat}
  {m : ByteMemory 64}
  {v : BitVec 64}
  {vs : List (BitVec 64)}
  {s t : State S}
  {env : Env S}

/-- A routine that has pushed nothing. -/
theorem ownStack_entry
    (depth : Nat)
    (hfits : 8 * depth ≤ 2 ^ 64)
    (s : State S) :
    OwnStack (s.regs .rsp) depth s.mem [] s where
  rsp := by simp
  words := trivial
  depth_le := Nat.zero_le _
  fits := hfits
  outside := fun _ _ => rfl

theorem sub_word
    (p : BitVec 64)
    (n : Nat) :
    p - BitVec.ofNat 64 (8 * n) - 8 = p - BitVec.ofNat 64 (8 * (n + 1)) := by
  rw [BitVec.sub_sub, Nat.mul_succ, BitVec.ofNat_add]
  rfl

theorem ownStack_push
    (hdepth : vs.length < depth)
    (h : OwnStack p depth m vs s) :
    OwnStack p depth m (v :: vs) (s.push v) where
  rsp := by
    show s.regs .rsp - 8 = _
    rw [h.rsp, sub_word, List.length_cons]
  words := by
    have hfits := h.fits
    exact wordsAt_store (by omega) h.words
  depth_le := hdepth
  fits := h.fits
  outside := by
    intro b hb
    have hrsp : s.regs .rsp - 8 = p - BitVec.ofNat 64 (8 * (vs.length + 1)) := by
      rw [h.rsp, sub_word]
    show s.mem.store (s.regs .rsp - 8) 8 v.toNat b = m b
    rw [ByteMemory.store_outside, h.outside b hb]
    rw [hrsp]
    exact fun hin => hb (inRange_below (by omega) (by omega) hin)

theorem ownStack_pop
    {r : Reg}
    (hr : r ≠ .rsp)
    (h : OwnStack p depth m (v :: vs) s) :
    (s.pop r).regs r = v ∧ OwnStack p depth m vs (s.pop r) := by
  have hrsp : (s.pop r).regs .rsp = s.regs .rsp + 8 := by
    show Function.update (Function.update s.regs .rsp (s.regs .rsp + 8)) r _ .rsp = _
    rw [Function.update_of_ne hr.symm, Function.update_self]
  constructor
  · show Function.update (Function.update s.regs .rsp (s.regs .rsp + 8)) r
      (s.word64 (s.regs .rsp)) r = v
    rw [Function.update_self]
    exact h.words.1
  · constructor
    · rw [hrsp, h.rsp, List.length_cons, ← sub_word, BitVec.sub_add_cancel]
    · rw [hrsp]
      exact h.words.2
    · exact Nat.le_of_succ_le h.depth_le
    · exact h.fits
    · exact h.outside

/-- A block of pushes. -/
theorem runBlock_pushes
    (env : Env S)
    (rs : List Reg)
    (hrs : .rsp ∉ rs)
    (hdepth : rs.length + vs.length ≤ depth)
    (h : OwnStack p depth m vs s) :
    ∃ t, Assembly.runBlock (exec env) (rs.map (Instr.push (L := L))) s = some t ∧
      OwnStack p depth m ((rs.map s.regs).reverse ++ vs) t ∧
      (∀ r, r ≠ .rsp → t.regs r = s.regs r) ∧ t.calls = s.calls := by
  induction rs generalizing s vs with
  | nil =>
      exact ⟨s, rfl, h, fun _ _ => rfl, rfl⟩
  | cons r rs ih =>
      rw [List.mem_cons, not_or] at hrs
      rw [List.length_cons] at hdepth
      have hregs : ∀ q, q ≠ .rsp → (s.push (s.regs r)).regs q = s.regs q :=
        fun q hq => Function.update_of_ne hq _ _
      obtain ⟨t, hrun, hstack, hkept, hcalls⟩ :=
        ih hrs.2 (by rw [List.length_cons]; omega) (ownStack_push (v := s.regs r) (by omega) h)
      refine ⟨t, hrun, ?_, fun q hq => (hkept q hq).trans (hregs q hq), hcalls⟩
      have hmap : rs.map (s.push (s.regs r)).regs = rs.map s.regs :=
        List.map_congr_left (fun q hq => hregs q (fun heq => hrs.2 (heq ▸ hq)))
      rw [List.map_cons, List.reverse_cons, List.append_assoc, List.singleton_append, ← hmap]
      exact hstack

/-- A block of pops. -/
theorem runBlock_pops
    (env : Env S)
    (rs : List Reg)
    (hrs : .rsp ∉ rs)
    (hdistinct : rs.Nodup)
    {ws : List (BitVec 64)}
    (hlen : ws.length = rs.length)
    (h : OwnStack p depth m (ws ++ vs) s) :
    ∃ t, Assembly.runBlock (exec env) (rs.map (Instr.pop (L := L))) s = some t ∧
      OwnStack p depth m vs t ∧ rs.map t.regs = ws ∧
      (∀ r, r ≠ .rsp → r ∉ rs → t.regs r = s.regs r) ∧ t.mem = s.mem ∧ t.calls = s.calls := by
  induction rs generalizing s ws with
  | nil =>
      rw [List.length_nil, List.length_eq_zero_iff] at hlen
      subst hlen
      exact ⟨s, rfl, h, rfl, fun _ _ _ => rfl, rfl, rfl⟩
  | cons r rs ih =>
      obtain ⟨w, ws, rfl⟩ := List.exists_cons_of_length_pos
        (by rw [hlen]; exact Nat.succ_pos _ : 0 < ws.length)
      rw [List.mem_cons, not_or] at hrs
      rw [List.nodup_cons] at hdistinct
      obtain ⟨hvalue, hpopped⟩ := ownStack_pop (Ne.symm hrs.1) h
      obtain ⟨t, hrun, hstack, hmap, hkept, hmem, hcalls⟩ :=
        ih hrs.2 hdistinct.2 (Nat.succ.inj hlen) hpopped
      refine ⟨t, hrun, hstack, ?_, ?_, hmem, hcalls⟩
      · rw [List.map_cons, hmap, hkept r (Ne.symm hrs.1) hdistinct.1, hvalue]
      · intro q hq hmem
        rw [List.mem_cons, not_or] at hmem
        rw [hkept q hq hmem.2]
        show Function.update (Function.update s.regs .rsp _) r _ q = _
        rw [Function.update_of_ne hmem.1, Function.update_of_ne hq]

end Rules

end X64
end Foundation
end OsSeminars
