import OsSeminars.Threads.MutexSequential
import Mathlib.Data.List.FinRange

/-!
# 15-threads/mutex-example.c: the dump of the buffer

`dump_buff` prints the buffer with `%s` and so reads up to the first zero byte.
The capacity is the number of all characters that are written, so none of the
zeros of `calloc` is left by then, and the read ends inside the buffer only if
some thread has written a zero itself. The first one to do so is thread 208,
whose character `'0' + 208` is 256.

If the product of the constants wraps around, the buffer is shorter, and the
threads that run first fill it.
-/

namespace OsSeminars
namespace Threads
namespace MutexExample

open Foundation

section CStrings

/-- The characters that `%s` prints. It reads up to the first zero byte, and
behind the end of the bytes nothing is known. -/
def cString : List UInt8 → Option (List UInt8)
  | [] => none
  | b :: bytes => if b = 0 then some [] else (cString bytes).map (b :: ·)

theorem isSome_cString_iff
    {bytes : List UInt8} :
    (cString bytes).isSome ↔ 0 ∈ bytes := by
  induction bytes with
  | nil =>
      simp [cString]
  | cons b bytes ih =>
      by_cases hb : b = 0
      · simp [cString, hb]
      · simp [cString, hb, Ne.symm hb, ih]

/-- `dump_buff`, if it reads inside the buffer. -/
def dumpBuff (ptr : Server) : Option (List UInt8) :=
  (cString ptr.buf).map fun text =>
    "server data dump: ".toUTF8.toList ++ text ++ "\n".toUTF8.toList

/-- A zero byte ends the dump within the allocated bytes. -/
def DumpInside (srv : Server) : Prop :=
  0 ∈ srv.buf.take srv.cap ∧ (dumpBuff srv).isSome

theorem dumpInside_iff
    {srv : Server}
    (hbuf : srv.buf.length = srv.cap) :
    DumpInside srv ↔ 0 ∈ srv.buf := by
  simp [DumpInside, dumpBuff, isSome_cString_iff, ← hbuf]

theorem DumpInside.zero_mem
    {srv : Server}
    (h : DumpInside srv) :
    0 ∈ srv.buf :=
  List.mem_of_mem_take h.1

end CStrings

section Characters

theorem threadChar_eq_zero_iff
    {n : Nat}
    {t : Fin n} :
    threadChar t = 0 ↔ t.val % 256 = 208 := by
  have hrange : ((48 + argNo t) % 256).toNat < 256 := by
    omega
  have hmod : argNo t % 256 = (t.val : Int) % 256 := by
    rw [argNo, toInt32, Int.bmod_def]
    split <;> omega
  rw [← UInt8.toNat_inj, threadChar, UInt8.toNat_ofNat_of_lt' hrange,
    UInt8.toNat_zero]
  omega

/-- The threads whose characters are not zero. -/
def visible (c : Constants) : List (Fin c.nThreads) :=
  (List.finRange c.nThreads).filter fun t => threadChar t ≠ 0

/-- The threads that write zeros. -/
def zeroes (c : Constants) : List (Fin c.nThreads) :=
  (List.finRange c.nThreads).filter fun t => threadChar t = 0

variable {c : Constants} {t : Fin c.nThreads}

theorem mem_visible :
    t ∈ visible c ↔ threadChar t ≠ 0 := by
  simp [visible]

theorem mem_zeroes :
    t ∈ zeroes c ↔ threadChar t = 0 := by
  simp [zeroes]

theorem length_visible_add_zeroes
    (c : Constants) :
    (visible c).length + (zeroes c).length = c.nThreads := by
  have h :=
    List.length_eq_length_filter_add (l := List.finRange c.nThreads)
      fun t => decide (threadChar t ≠ 0)
  simpa [visible, zeroes] using h.symm

/-- Before each thread that writes zeros there is one that does not. -/
theorem length_zeroes_le
    (c : Constants) :
    (zeroes c).length ≤ (visible c).length := by
  let before (t : Fin c.nThreads) : Fin c.nThreads :=
    ⟨t.val - 1, Nat.lt_of_le_of_lt (Nat.sub_le _ _) t.isLt⟩
  have hzero : ∀ t ∈ zeroes c, t.val % 256 = 208 :=
    fun t ht => threadChar_eq_zero_iff.mp (mem_zeroes.mp ht)
  have hnodup : ((zeroes c).map before).Nodup := by
    refine List.Nodup.map_on ?_ ((List.nodup_finRange _).filter _)
    intro t ht u hu htu
    have ht' := hzero t ht
    have hu' := hzero u hu
    simp only [before, Fin.mk.injEq] at htu
    exact Fin.ext (by omega)
  have hsubset : (zeroes c).map before ⊆ visible c := by
    intro u hu
    obtain ⟨t, ht, rfl⟩ := List.mem_map.mp hu
    have ht' := hzero t ht
    rw [mem_visible, Ne, threadChar_eq_zero_iff]
    simp only [before]
    omega
  simpa using (hnodup.subperm hsubset).length_le

theorem zeroes_eq_nil
    (h : c.nThreads ≤ 208) :
    zeroes c = [] := by
  refine List.eq_nil_iff_forall_not_mem.mpr fun t ht => ?_
  have ht' := threadChar_eq_zero_iff.mp (mem_zeroes.mp ht)
  have hlt := t.isLt
  omega

theorem length_characters
    (order : List (Fin c.nThreads)) :
    (order.flatMap characters).length = order.length * (c.tries * c.msgLen) := by
  simp only [List.length_flatMap, characters, List.length_replicate,
    List.map_const', List.sum_replicate_nat]

theorem not_zero_mem_visible :
    0 ∉ (visible c).flatMap characters := by
  rw [List.mem_flatMap]
  rintro ⟨t, ht, hzero⟩
  exact mem_visible.mp ht (List.eq_of_mem_replicate hzero).symm

end Characters

section Dumps

variable {c : Constants} {s : State c}

/-- If the product of the constants does not wrap around, then in every run the
buffer is full of characters, and one of them is a zero if thread 208 exists. -/
theorem dumpInside_iff_of_fits
    (hfits : c.nThreads * c.tries * c.msgLen < sizeMod)
    (h : (system c).Reachable s)
    (hmain : s.main = .dumpBuff) :
    DumpInside s.srv ↔ 208 < c.nThreads ∧ 0 < c.tries * c.msgLen := by
  obtain ⟨writers, hwriters⟩ := h.exists_history
  obtain ⟨owners, openBlock, hinv⟩ := inv_of_reachable hfits hwriters
  obtain ⟨hblocks, -, howners, hcount⟩ := joined_blocks hinv hmain
  have hfull : writers.length = s.srv.cap := by
    rw [hblocks, length_blocks, howners, hinv.cap_eq]
  have hbuf : s.srv.buf = writers.map threadChar := by
    simpa [hfull] using hinv.buf_eq
  rw [dumpInside_iff (by rw [hbuf, List.length_map, hfull]), hbuf, List.mem_map]
  constructor
  · rintro ⟨t, ht, hzero⟩
    have hnumber := threadChar_eq_zero_iff.mp hzero
    have hlt := t.isLt
    have hpos : 0 < s.srv.cap := hfull ▸ List.length_pos_of_mem ht
    rw [hinv.cap_eq, Nat.mul_assoc] at hpos
    exact ⟨by omega, Nat.pos_of_mul_pos_left hpos⟩
  · rintro ⟨hlt, hpos⟩
    have hwrites : 0 < owners.count ⟨208, hlt⟩ := by
      rw [hcount]
      exact Nat.pos_of_mul_pos_right hpos
    refine ⟨⟨208, hlt⟩, ?_, threadChar_eq_zero_iff.mpr rfl⟩
    rw [hblocks, List.mem_flatMap]
    refine ⟨⟨208, hlt⟩, List.count_pos_iff.mp hwrites, ?_⟩
    exact List.mem_replicate.mpr ⟨(Nat.pos_of_mul_pos_left hpos).ne', rfl⟩

/-- The characters of all threads are the visible ones and the zeros. -/
theorem length_visible_add_length_zeroes
    (c : Constants) :
    ((visible c).flatMap characters).length +
        ((zeroes c).flatMap characters).length =
      c.nThreads * c.tries * c.msgLen := by
  rw [length_characters, length_characters, ← Nat.add_mul,
    length_visible_add_zeroes, Nat.mul_assoc]

/-- The visible characters are enough to fill the buffer. -/
theorem capacity_le_visible
    (h :
      ¬ (208 < c.nThreads ∧ 0 < c.tries * c.msgLen ∧
        c.nThreads * c.tries * c.msgLen < sizeMod)) :
    c.nThreads * c.tries * c.msgLen % sizeMod ≤
      ((visible c).flatMap characters).length := by
  have hsum := length_visible_add_length_zeroes c
  by_cases hfew : c.nThreads ≤ 208
  · rw [zeroes_eq_nil hfew] at hsum
    rw [← hsum]
    exact Nat.mod_le _ _
  · by_cases hnothing : c.tries * c.msgLen = 0
    · rw [Nat.mul_assoc, hnothing]
      simp
    · have hwraps : sizeMod ≤ c.nThreads * c.tries * c.msgLen := by
        by_contra hlt
        exact h ⟨by omega, Nat.pos_of_ne_zero hnothing, by omega⟩
      have hhalf :
          ((zeroes c).flatMap characters).length ≤
            ((visible c).flatMap characters).length := by
        rw [length_characters, length_characters]
        exact Nat.mul_le_mul_right _ (length_zeroes_le c)
      unfold sizeMod at *
      omega

/-- Threads that write zeros find the buffer full if they come last. -/
theorem not_zero_mem_visible_first
    (hvisible :
      c.nThreads * c.tries * c.msgLen % sizeMod ≤
        ((visible c).flatMap characters).length)
    (hcap : c.nThreads * c.tries * c.msgLen % sizeMod ≠ sizeMod - 1) :
    0 ∉ (writeAll (start c).srv
      ((visible c ++ zeroes c).flatMap characters)).buf := by
  have hlt : c.nThreads * c.tries * c.msgLen % sizeMod < sizeMod :=
    Nat.mod_lt _ (by decide)
  rw [List.flatMap_append, start,
    buf_writeAll_initServer (by omega) (by rw [List.length_append]; omega),
    List.take_append_of_le_length hvisible]
  exact fun hzero => not_zero_mem_visible (List.mem_of_mem_take hzero)

/-- With the largest capacity the buffer is never full, and what has been
written last is in it. -/
theorem not_zero_mem_visible_last
    (hvisible :
      c.nThreads * c.tries * c.msgLen % sizeMod ≤
        ((visible c).flatMap characters).length)
    (hlargest : c.nThreads * c.tries * c.msgLen % sizeMod = sizeMod - 1) :
    0 ∉ (writeAll (start c).srv
      ((zeroes c ++ visible c).flatMap characters)).buf := by
  have hsum := length_visible_add_length_zeroes c
  rw [hlargest] at hvisible
  generalize hv : (visible c).flatMap characters = v at hsum hvisible
  have hsplit := List.take_append_drop (v.length - (sizeMod - 1)) v
  rw [List.flatMap_append, hv, ← hsplit, ← List.append_assoc, start, hlargest,
    buf_writeAll_largest]
  · intro hzero
    refine not_zero_mem_visible (c := c) ?_
    rw [hv]
    exact List.mem_of_mem_drop hzero
  · rw [List.length_append, List.length_take]
    unfold sizeMod at *
    omega
  · rw [List.length_drop]
    omega

/-- Some order of the threads leaves no zero in the buffer. -/
theorem exists_order
    (h :
      ¬ (208 < c.nThreads ∧ 0 < c.tries * c.msgLen ∧
        c.nThreads * c.tries * c.msgLen < sizeMod)) :
    ∃ order : List (Fin c.nThreads),
      order.Nodup ∧
      (∀ t, t ∈ order) ∧
      0 ∉ (writeAll (start c).srv (order.flatMap characters)).buf := by
  have hvisible := capacity_le_visible h
  have hnodup : (visible c ++ zeroes c).Nodup := by
    refine List.nodup_append.mpr
      ⟨(List.nodup_finRange _).filter _, (List.nodup_finRange _).filter _, ?_⟩
    rintro t ht u hu rfl
    exact mem_visible.mp ht (mem_zeroes.mp hu)
  have hall : ∀ t, t ∈ visible c ++ zeroes c := by
    intro t
    rw [List.mem_append, mem_visible, mem_zeroes]
    exact (em _).symm
  by_cases hlargest :
      c.nThreads * c.tries * c.msgLen % sizeMod = sizeMod - 1
  · have hcomm : (visible c ++ zeroes c).Perm (zeroes c ++ visible c) :=
      List.perm_append_comm
    exact ⟨zeroes c ++ visible c, hcomm.nodup_iff.mp hnodup,
      fun t => hcomm.mem_iff.mp (hall t),
      not_zero_mem_visible_last hvisible hlargest⟩
  · exact ⟨visible c ++ zeroes c, hnodup, hall,
      not_zero_mem_visible_first hvisible hlargest⟩

/-- In some run nothing ends the dump. -/
theorem exists_dump_outside
    (h :
      ¬ (208 < c.nThreads ∧ 0 < c.tries * c.msgLen ∧
        c.nThreads * c.tries * c.msgLen < sizeMod)) :
    ∃ s : State c,
      (system c).Reachable s ∧
      s.main = .dumpBuff ∧
      ¬ DumpInside s.srv := by
  obtain ⟨order, hnodup, hall, hzero⟩ := exists_order h
  obtain ⟨s, hs, hmain, hsrv⟩ := exists_sequential_run hnodup hall
  exact ⟨s, hs, hmain, fun hinside => hzero (hsrv ▸ hinside.zero_mem)⟩

/-- The dump ends inside the buffer, in every run of the program, exactly when
there are more than 208 threads, each of them writes, and the product of the
constants is a `size_t`. -/
theorem dump_inside_iff
    (c : Constants) :
    (∀ s : State c,
      (system c).Reachable s →
      s.main = .dumpBuff →
      DumpInside s.srv) ↔
    208 < c.nThreads ∧
    0 < c.tries * c.msgLen ∧
    c.nThreads * c.tries * c.msgLen < sizeMod := by
  constructor
  · intro hall
    by_contra hnot
    obtain ⟨s, hs, hmain, houtside⟩ := exists_dump_outside hnot
    exact houtside (hall s hs hmain)
  · rintro ⟨hthreads, hpos, hfits⟩ s hs hmain
    exact (dumpInside_iff_of_fits hfits hs hmain).mpr ⟨hthreads, hpos⟩

/-- The constants as they are in the program. -/
def programConstants : Constants where
  nThreads := 10
  tries := 3
  msgLen := 32

theorem not_dump_inside_programConstants :
    ¬ ∀ s : State programConstants,
      (system programConstants).Reachable s →
      s.main = .dumpBuff →
      DumpInside s.srv := by
  intro hall
  obtain ⟨s, hs, hmain, houtside⟩ :=
    exists_dump_outside (c := programConstants) (by decide)
  exact houtside (hall s hs hmain)

end Dumps

end MutexExample
end Threads
end OsSeminars
