import Mathlib.Algebra.BigOperators.Group.List.Basic
import OsSeminars.Foundation.MachineInt

/-!
# `file_summ.c`: the total size of the files that are named

The program reads file names from its standard input, one on a line, into an array of
`PATH_MAX` characters, and adds up the sizes of the regular files among them. The array
is never cleared. A name is what stands in front of the zero that is stored at its end,
and the index is set back at every line break, so the characters of earlier lines lie
behind the zero.

Nothing checks the index. A store behind the array has no defined effect, and the model
ends with it; the stores made so far are kept in both cases.
-/

namespace OsSeminars
namespace Files
namespace FileSumm

open Foundation

def PATH_MAX : Nat := 4096

section FileSystems

inductive FileType
  | fifo
  | characterDevice
  | directory
  | blockDevice
  | regular
  | symbolicLink
  | socket
  deriving DecidableEq

/-- The highest four bits of `st_mode`. -/
def FileType.bits : FileType → BitVec 4
  | fifo => 1
  | characterDevice => 2
  | directory => 4
  | blockDevice => 6
  | regular => 8
  | symbolicLink => 10
  | socket => 12

structure Inode where
  type : FileType
  permissions : BitVec 12
  size : Nat

/-- What the names lead to, without following a link at the end of a name. The empty
name leads nowhere. -/
structure FileSystem where
  entry : List UInt8 → Option Inode
  entry_nil : entry [] = none

structure Stat where
  stMode : BitVec 16
  stSize : Int

/-- `lstat(filename, &st)`. -/
def lstat
    (fs : FileSystem)
    (filename : List UInt8) :
    Option Stat :=
  (fs.entry filename).map fun inode =>
    { stMode := inode.type.bits ++ inode.permissions, stSize := inode.size }

/-- `S_ISREG(mode)`. -/
def sIsReg
    (mode : BitVec 16) :
    Bool :=
  mode &&& 0xF000#16 = 0x8000#16

/-- `regular_file_size(filename)`. -/
def regularFileSize
    (fs : FileSystem)
    (filename : List UInt8) :
    Int :=
  match lstat fs filename with
  | none => 0
  | some st => if sIsReg st.stMode then st.stSize else 0

end FileSystems

/-- The variables of `main` and the indices of the stores into `file`. -/
structure State where
  file : List UInt8
  i : Nat
  sum : Int
  stores : List Nat

/-- `file[i] = ch`; behind the array only the store itself is known. -/
def store
    (ch : UInt8)
    (s : State) :
    Except (List Nat) State :=
  if s.i < PATH_MAX then
    .ok { s with file := s.file.set s.i ch, stores := s.stores ++ [s.i] }
  else
    .error (s.stores ++ [s.i])

/-- The string in the array: what stands in front of its first zero. -/
def fileName
    (s : State) :
    List UInt8 :=
  s.file.takeWhile (· ≠ 0)

/-- One iteration of the loop. -/
def iteration
    (fs : FileSystem)
    (ch : UInt8)
    (s : State) :
    Except (List Nat) State :=
  if ch = 10 then
    match store 0 s with
    | .error stores => .error stores
    | .ok s =>
        .ok { s with i := 0, sum := toInt64 (s.sum + regularFileSize fs (fileName s)) }
  else
    match store ch s with
    | .error stores => .error stores
    | .ok s => .ok { s with i := s.i + 1 }

/-- `while ((ch = getchar()) != EOF)`. -/
def loop
    (fs : FileSystem) :
    List UInt8 → State → Except (List Nat) State
  | [], s => .ok s
  | ch :: stream, s =>
      match iteration fs ch s with
      | .error stores => .error stores
      | .ok s => loop fs stream s

/-- The state in front of the loop, with the array not initialised. -/
def start
    (file : List UInt8) :
    State where
  file := file
  i := 0
  sum := 0
  stores := []

/-- What `main` prints, unless it has stored behind the array. -/
def main
    (fs : FileSystem)
    (file stream : List UInt8) :
    Option String :=
  match loop fs stream (start file) with
  | .error _ => none
  | .ok s => some (toString s.sum ++ "\n")

/-- The indices of all stores. -/
def allStores :
    Except (List Nat) State → List Nat
  | .error stores => stores
  | .ok s => s.stores

section Sizes

/-- The size of a regular file, and zero for everything else. -/
def sizeOf
    (fs : FileSystem)
    (name : List UInt8) :
    Nat :=
  match fs.entry name with
  | some { type := .regular, permissions := _, size } => size
  | _ => 0

/-- `S_ISREG` looks at the type only. -/
theorem sIsReg_iff
    (type : FileType)
    (permissions : BitVec 12) :
    sIsReg (type.bits ++ permissions) = true ↔ type = .regular := by
  have hmask : (0xF000#16) = (15#4 ++ 0#12 : BitVec 16) := by decide
  have hregular : (0x8000#16) = (8#4 ++ 0#12 : BitVec 16) := by decide
  rw [sIsReg, decide_eq_true_iff, hmask, hregular, BitVec.and_append, BitVec.and_zero]
  cases type <;> decide

theorem regularFileSize_eq
    (fs : FileSystem)
    (name : List UInt8) :
    regularFileSize fs name = sizeOf fs name := by
  rw [regularFileSize, lstat, sizeOf]
  cases hentry : fs.entry name with
  | none =>
      rfl
  | some inode =>
      obtain ⟨type, permissions, size⟩ := inode
      change (if sIsReg (type.bits ++ permissions) then (size : Int) else 0) = _
      by_cases htype : type = .regular
      · rw [if_pos ((sIsReg_iff type permissions).mpr htype)]
        subst htype
        rfl
      · rw [if_neg (fun h => htype ((sIsReg_iff type permissions).mp h))]
        cases type with
        | regular =>
            exact absurd rfl htype
        | _ =>
            rfl

/-- The array has its size, and the current line stands at its beginning. -/
structure Reading
    (line : List UInt8)
    (s : State) :
    Prop where
  size : s.file.length = PATH_MAX
  index : s.i = line.length
  current : s.file.take s.i = line

theorem reading_start
    {file : List UInt8}
    (hfile : file.length = PATH_MAX) :
    Reading [] (start file) where
  size := hfile
  index := rfl
  current := rfl

variable (fs : FileSystem) {s : State} {line : List UInt8}

theorem store_of_lt
    (ch : UInt8)
    (h : s.i < PATH_MAX) :
    store ch s =
      .ok { s with file := s.file.set s.i ch, stores := s.stores ++ [s.i] } :=
  if_pos h

/-- What is stored stands behind the current line, and what is behind it is old. -/
theorem Reading.set
    (h : Reading line s)
    (hlt : line.length < PATH_MAX)
    (ch : UInt8) :
    s.file.set s.i ch = line ++ ch :: s.file.drop (line.length + 1) := by
  have hi : s.i < s.file.length := by
    rw [h.size, h.index]
    exact hlt
  rw [List.set_eq_take_append_cons_drop, if_pos hi, h.current, h.index]

/-- A character lengthens the current line. -/
theorem Reading.character
    (h : Reading line s)
    {ch : UInt8}
    (hch : ch ≠ 10)
    (hlt : line.length < PATH_MAX) :
    ∃ t, iteration fs ch s = .ok t ∧ Reading (line ++ [ch]) t ∧ t.sum = s.sum := by
  have hi : s.i < PATH_MAX := by
    rw [h.index]
    exact hlt
  rw [iteration, if_neg hch, store_of_lt ch hi]
  refine ⟨_, rfl, ⟨?_, ?_, ?_⟩, rfl⟩
  · rw [List.length_set]
    exact h.size
  · change s.i + 1 = (line ++ [ch]).length
    rw [h.index, List.length_append, List.length_singleton]
  · change (s.file.set s.i ch).take (s.i + 1) = line ++ [ch]
    rw [h.set hlt, h.index, ← List.singleton_append, ← List.append_assoc,
      List.take_left' (by rw [List.length_append, List.length_singleton])]

/-- A line break adds the size of the file that the line names, whatever stands behind
the line. -/
theorem Reading.lineBreak
    (h : Reading line s)
    (hlt : line.length < PATH_MAX)
    (hline : 0 ∉ line) :
    ∃ t, iteration fs 10 s = .ok t ∧ Reading [] t ∧
      t.sum = toInt64 (s.sum + sizeOf fs line) := by
  have hi : s.i < PATH_MAX := by
    rw [h.index]
    exact hlt
  have hname : (s.file.set s.i 0).takeWhile (· ≠ 0) = line := by
    rw [h.set hlt, List.takeWhile_append_of_pos, List.takeWhile_cons_of_neg (by simp),
      List.append_nil]
    intro c hc
    rw [decide_eq_true_eq]
    rintro rfl
    exact hline hc
  rw [iteration, if_pos rfl, store_of_lt 0 hi]
  refine ⟨_, rfl, ⟨?_, rfl, rfl⟩, ?_⟩
  · rw [List.length_set]
    exact h.size
  · change toInt64 (s.sum + regularFileSize fs ((s.file.set s.i 0).takeWhile (· ≠ 0))) = _
    rw [hname, regularFileSize_eq]

/-- The rest of a line up to and including its line break. -/
theorem Reading.restOfLine
    (h : Reading line s)
    {more : List UInt8}
    (hlt : (line ++ more).length < PATH_MAX)
    (hzero : 0 ∉ line ++ more)
    (hbreak : 10 ∉ more)
    (stream : List UInt8) :
    ∃ t, loop fs (more ++ 10 :: stream) s = loop fs stream t ∧ Reading [] t ∧
      t.sum = toInt64 (s.sum + sizeOf fs (line ++ more)) := by
  induction more generalizing line s with
  | nil =>
      rw [List.append_nil] at hlt hzero
      obtain ⟨t, hnext, ht, hsum⟩ := h.lineBreak fs hlt hzero
      refine ⟨t, ?_, ht, ?_⟩
      · rw [List.nil_append, loop, hnext]
      · rw [List.append_nil]
        exact hsum
  | cons ch more ih =>
      rw [List.mem_cons, not_or] at hbreak
      have hcurrent : line.length < PATH_MAX := by
        rw [List.length_append] at hlt
        omega
      obtain ⟨t, hnext, ht, hsum⟩ :=
        h.character fs (Ne.symm hbreak.1) hcurrent
      rw [List.append_cons line ch more] at hlt hzero ⊢
      obtain ⟨u, hrest, hu, hfinal⟩ := ih ht hlt hzero hbreak.2
      refine ⟨u, ?_, hu, ?_⟩
      · rw [List.cons_append, loop, hnext]
        exact hrest
      · rw [hfinal, hsum]

/-- All lines of a stream, with the sum of the earlier lines in front. -/
theorem Reading.lines
    (h : Reading [] s)
    {n : Nat}
    (hn : s.sum = n)
    {lines : List (List UInt8)}
    (hshort : ∀ line ∈ lines, line.length < PATH_MAX)
    (hzero : ∀ line ∈ lines, 0 ∉ line)
    (hbreak : ∀ line ∈ lines, 10 ∉ line)
    (hsum : n + (lines.map (sizeOf fs)).sum < 2 ^ 63) :
    ∃ t, loop fs (lines.flatMap (· ++ [10])) s = .ok t ∧
      t.sum = (n + (lines.map (sizeOf fs)).sum : Nat) := by
  induction lines generalizing n s with
  | nil =>
      exact ⟨s, rfl, hn⟩
  | cons line lines ih =>
      rw [List.forall_mem_cons] at hshort hzero hbreak
      rw [List.map_cons, List.sum_cons, ← Nat.add_assoc] at hsum ⊢
      obtain ⟨t, hnext, ht, htotal⟩ :=
        h.restOfLine fs hshort.1 hzero.1 hbreak.1 (lines.flatMap (· ++ [10]))
      have hpartial : t.sum = (n + sizeOf fs line : Nat) := by
        rw [htotal, hn, List.nil_append]
        exact toInt64_of_lt (by omega)
      obtain ⟨u, hrest, hfinal⟩ := ih ht hpartial hshort.2 hzero.2 hbreak.2 hsum
      refine ⟨u, ?_, hfinal⟩
      rw [List.flatMap_cons, List.append_assoc, List.singleton_append, hnext]
      exact hrest

/-- The program prints the sum of the sizes of the regular files that the lines name, a
file as often as it is named. What the array held before, and what earlier lines have
left in it, has no influence. -/
theorem prints_sum_of_sizes
    {file : List UInt8}
    (hfile : file.length = PATH_MAX)
    {lines : List (List UInt8)}
    (hshort : ∀ line ∈ lines, line.length < PATH_MAX)
    (hzero : ∀ line ∈ lines, 0 ∉ line)
    (hbreak : ∀ line ∈ lines, 10 ∉ line)
    (hsum : (lines.map (sizeOf fs)).sum < 2 ^ 63) :
    main fs file (lines.flatMap (· ++ [10])) =
      some (toString (lines.map (sizeOf fs)).sum ++ "\n") := by
  obtain ⟨t, hloop, htotal⟩ :=
    (reading_start hfile).lines fs (n := 0) rfl hshort hzero hbreak
      (by rwa [Nat.zero_add])
  rw [main, hloop]
  change some (toString t.sum ++ "\n") = _
  rw [htotal, Nat.zero_add]
  rfl

/-- The file `ab` has three bytes, `a` is a link and `b` is a directory. -/
def threeEntries : FileSystem where
  entry
    | [97, 98] => some { type := .regular, permissions := 0x1A4, size := 3 }
    | [97] => some { type := .symbolicLink, permissions := 0x1FF, size := 2 }
    | [98] => some { type := .directory, permissions := 0x1ED, size := 4096 }
    | _ => none
  entry_nil := rfl

/-- The lines `ab`, `a`, the empty line, `b` and again `ab`. -/
theorem prints_sum_of_sizes_threeEntries :
    main threeEntries (List.replicate PATH_MAX 98)
        ([[97, 98], [97], [], [98], [97, 98]].flatMap (· ++ [10])) =
      some "6\n" :=
  prints_sum_of_sizes threeEntries List.length_replicate (by decide) (by decide)
    (by decide) (by decide)

end Sizes

section Stores

/-- The line at whose index `i` the program is fits into the array, and so do all lines
behind it. -/
def Fits :
    Nat → List UInt8 → Prop
  | i, [] => i ≤ PATH_MAX
  | i, ch :: stream => i < PATH_MAX ∧ Fits (if ch = 10 then 0 else i + 1) stream

theorem Fits.le
    {i : Nat}
    {stream : List UInt8}
    (h : Fits i stream) :
    i ≤ PATH_MAX := by
  cases stream with
  | nil =>
      exact h
  | cons ch stream =>
      exact Nat.le_of_lt h.1

variable (fs : FileSystem) {s : State}

/-- Every iteration stores one character at the index, and a break sets it back. -/
theorem iteration_of_lt
    (ch : UInt8)
    (h : s.i < PATH_MAX) :
    ∃ t, iteration fs ch s = .ok t ∧ t.stores = s.stores ++ [s.i] ∧
      t.i = if ch = 10 then 0 else s.i + 1 := by
  by_cases hch : ch = 10
  · rw [iteration, if_pos hch, if_pos hch, store_of_lt 0 h]
    exact ⟨_, rfl, rfl, rfl⟩
  · rw [iteration, if_neg hch, if_neg hch, store_of_lt ch h]
    exact ⟨_, rfl, rfl, rfl⟩

theorem iteration_of_le
    (ch : UInt8)
    (h : PATH_MAX ≤ s.i) :
    iteration fs ch s = .error (s.stores ++ [s.i]) := by
  have hstore (c : UInt8) : store c s = .error (s.stores ++ [s.i]) :=
    if_neg (Nat.not_lt.mpr h)
  by_cases hch : ch = 10
  · rw [iteration, if_pos hch, hstore]
  · rw [iteration, if_neg hch, hstore]

theorem stores_inside_iff_fits
    (stream : List UInt8)
    (hindex : s.i ≤ PATH_MAX)
    (hstores : ∀ i ∈ s.stores, i < PATH_MAX) :
    (∀ i ∈ allStores (loop fs stream s), i < PATH_MAX) ↔ Fits s.i stream := by
  induction stream generalizing s with
  | nil =>
      exact iff_of_true hstores hindex
  | cons ch stream ih =>
      rcases Nat.lt_or_ge s.i PATH_MAX with hlt | hge
      · obtain ⟨t, hnext, hmore, hi⟩ := iteration_of_lt fs ch hlt
        have hinside : ∀ i ∈ t.stores, i < PATH_MAX := by
          rw [hmore, List.forall_mem_append, List.forall_mem_singleton]
          exact ⟨hstores, hlt⟩
        have hle : t.i ≤ PATH_MAX := by
          rw [hi]
          split <;> omega
        rw [loop, hnext, Fits, and_iff_right hlt, ← hi]
        exact ih hle hinside
      · rw [loop, iteration_of_le fs ch hge]
        refine iff_of_false (fun h => ?_) (fun h => Nat.not_lt.mpr hge h.1)
        exact Nat.not_lt.mpr hge (h s.i (List.mem_append_right _ (List.mem_singleton_self _)))

/-- Every line leaves room for the zero at its end, and what follows the last line break
fits without one. -/
def LinesFit
    (stream : List UInt8) :
    Prop :=
  (∀ line ∈ (stream.splitOn 10).dropLast, line.length < PATH_MAX) ∧
    ((stream.splitOn 10).getLast (List.splitOn_ne_nil 10 stream)).length ≤ PATH_MAX

/-- The characters of the current line may stand in front of the stream. -/
theorem fits_iff_linesFit
    {line : List UInt8}
    (hline : 10 ∉ line)
    (stream : List UInt8) :
    Fits line.length stream ↔ LinesFit (line ++ stream) := by
  induction stream generalizing line with
  | nil =>
      have hsplit : (line ++ []).splitOn 10 = [line] := by
        rw [List.append_nil, List.splitOn_eq_singleton hline]
      simp only [LinesFit, hsplit]
      exact (and_iff_right (fun _ h => absurd h List.not_mem_nil)).symm
  | cons ch stream ih =>
      rw [Fits]
      by_cases hch : ch = 10
      · subst hch
        have hsplit : (line ++ 10 :: stream).splitOn 10 = line :: stream.splitOn 10 :=
          List.splitOn_append_cons_self_of_not_mem hline stream
        simp only [LinesFit, hsplit, if_true]
        rw [List.dropLast_cons_of_ne_nil (List.splitOn_ne_nil 10 stream),
          List.getLast_cons (List.splitOn_ne_nil 10 stream), List.forall_mem_cons, and_assoc]
        exact and_congr_right fun _ => ih List.not_mem_nil
      · have hlonger : 10 ∉ line ++ [ch] := by
          rw [List.mem_append, List.mem_singleton, not_or]
          exact ⟨hline, Ne.symm hch⟩
        have hlength : (line ++ [ch]).length = line.length + 1 := List.length_append
        rw [if_neg hch, List.append_cons, ← ih hlonger, hlength]
        exact and_iff_right_of_imp fun h => h.le

/-- The loop stores inside of the array alone, if and only if every line has fewer than
`PATH_MAX` characters and the rest that no line break ends has at most `PATH_MAX`. -/
theorem stores_inside_iff
    (file stream : List UInt8) :
    (∀ i ∈ allStores (loop fs stream (start file)), i < PATH_MAX) ↔ LinesFit stream :=
  (stores_inside_iff_fits fs stream (Nat.zero_le _)
    (fun _ h => absurd h List.not_mem_nil)).trans
    (fits_iff_linesFit List.not_mem_nil stream)

/-- A line of `PATH_MAX` characters fills the array, and the zero at its end is stored
behind it. -/
theorem not_stores_inside_fullLine :
    ¬ ∀ i ∈ allStores (loop threeEntries (List.replicate PATH_MAX 97 ++ [10])
        (start (List.replicate PATH_MAX 0))), i < PATH_MAX := by
  have hline : (10 : UInt8) ∉ List.replicate PATH_MAX 97 := by
    rw [List.mem_replicate, not_and]
    exact fun _ => by decide
  rw [stores_inside_iff_fits threeEntries _ (Nat.zero_le _)
    (fun _ h => absurd h List.not_mem_nil)]
  change ¬ Fits ([] : List UInt8).length _
  rw [fits_iff_linesFit List.not_mem_nil, List.nil_append]
  intro h
  have hsplit := List.splitOn_append_cons_self_of_not_mem hline []
  have hlength := h.1 (List.replicate PATH_MAX 97) (by
    rw [hsplit]
    exact List.mem_cons_self)
  rw [List.length_replicate] at hlength
  exact Nat.lt_irrefl _ hlength

end Stores

end FileSumm
end Files
end OsSeminars
