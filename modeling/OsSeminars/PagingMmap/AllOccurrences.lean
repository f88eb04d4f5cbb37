import OsSeminars.PagingMmap.FindSubstrings

/-!
# 12-paging-mmap/find-substrings-in-file.c: what is printed and what is read

After a match the window is one byte too long: its start moves behind the
match, while its length is still computed from the match itself. So every
window after the first match ends one byte behind the file.

If the file does not end on a page boundary, that byte reads as zero. It cannot
complete an occurrence of a pattern without zero bytes, so the program prints
exactly the occurrences in the file.
-/

namespace OsSeminars
namespace PagingMmap
namespace FindSubstrings

open Foundation

/-- The pattern stands in the file at offset `i`. -/
def Run.occurs (r : Run) (i : Nat) : Bool :=
  decide (r.pattern <+: r.file.drop i)

/-- The variables at the first evaluation of the loop condition. -/
def firstLoopState : LoopState where
  pointer := 0
  delta := 0
  printed := []

section Setup

variable {r : Run}

/-- Nothing but a failed call or an empty file keeps `main` from its loop. -/
theorem start_eq_loop_iff
    {l : LoopState} :
    start r = .loop l ↔
      r.CallsSucceed ∧ r.file ≠ [] ∧
      l = firstLoopState := by
  unfold start Run.CallsSucceed firstLoopState
  split_ifs with hargc hfstat hopen hmmap
  · simp [hargc]
  · simp [hfstat]
  · refine ⟨fun h => (by cases h), ?_⟩
    rintro ⟨⟨-, hf, -⟩, hfile, -⟩
    exact absurd (hopen.resolve_left hf) (by simpa [Run.stSize] using hfile)
  · simp [hmmap]
  · rw [not_or] at hopen
    have hfile : r.file ≠ [] := by simpa [Run.stSize] using hopen.2
    rw [not_not] at hargc
    simp [hargc, hfstat, hopen.1, hmmap, hfile, eq_comm]

theorem start_of_calls
    (hcalls : r.CallsSucceed)
    (hfile : r.file ≠ []) :
    start r = .loop firstLoopState :=
  start_eq_loop_iff.mpr ⟨hcalls, hfile, rfl⟩

/-- The whole file is mapped. -/
theorem stSize_le_mappedSize
    (r : Run) :
    r.stSize ≤ r.mappedSize := by
  have hdiv := Nat.div_add_mod (r.stSize + r.pageSize - 1) r.pageSize
  have hmod := Nat.mod_lt (r.stSize + r.pageSize - 1) r.pageSize_pos
  unfold Run.mappedSize
  rw [Nat.mul_comm]
  omega

/-- Behind a file that does not fill its last page a further byte is mapped. -/
theorem stSize_lt_mappedSize
    (hpage : r.stSize % r.pageSize ≠ 0) :
    r.stSize < r.mappedSize := by
  refine Nat.lt_of_le_of_ne (stSize_le_mappedSize r) ?_
  intro heq
  rw [heq, Run.mappedSize, Nat.mul_mod_left] at hpage
  exact hpage rfl

theorem length_of_occurs
    {i : Nat}
    (hpattern : r.pattern ≠ [])
    (h : r.occurs i = true) :
    i + r.pattern.length ≤ r.stSize := by
  have hlen := (of_decide_eq_true h).length_le
  have hpos := List.length_pos_iff.mpr hpattern
  rw [List.length_drop] at hlen
  unfold Run.stSize
  omega

/-- `memmem` in a mapped window. -/
theorem memmem_mapped
    {l : LoopState}
    (hpattern : r.pattern ≠ [])
    (hmapped : l.pointer + r.windowLength l ≤ r.mappedSize) :
    memmem r.ftext r.mappedSize l.pointer (r.windowLength l) r.pattern =
      match firstFrom (occursAt r.ftext r.pattern) l.pointer
          (r.windowLength l + 1 - r.pattern.length) with
      | some i => .found i
      | none => .null := by
  unfold memmem
  exact (if_neg hpattern).trans (if_pos hmapped)

/-- The length of the window in terms of `delta`. -/
theorem windowLength_eq
    {l : LoopState}
    {len : Nat}
    (hlen : (r.stSize : Int) - l.delta = len)
    (hlt : len < sizeMod) :
    r.windowLength l = len := by
  unfold Run.windowLength
  rw [hlen]
  exact toSizeT_of_lt hlt

theorem stSize_lt_sizeMod
    (r : Run) :
    r.stSize < sizeMod :=
  Nat.lt_trans r.size_lt (by decide)

theorem windowLength_first
    (r : Run) :
    r.windowLength firstLoopState = r.stSize :=
  windowLength_eq (by simp [firstLoopState]) (stSize_lt_sizeMod r)

end Setup

section Printing

variable {r : Run}

/-- What the loop needs to print exactly the occurrences. -/
structure Run.Searchable (r : Run) : Prop where
  size_le : (r.stSize : Int) ≤ intMax
  page : r.stSize % r.pageSize ≠ 0
  pattern_ne : r.pattern ≠ []
  zero_not_mem : 0 ∉ r.pattern

/-- The offsets printed before the end of the program. -/
def Run.offsetsBelow (r : Run) (n : Nat) : List Int :=
  (positionsBelow r.occurs n).map Int.ofNat

/-- The window ends with the file or one byte behind it. -/
structure LoopInv
    (r : Run)
    (l : LoopState) : Prop where
  pointer_le : l.pointer ≤ r.stSize
  window_ge : r.stSize ≤ l.pointer + r.windowLength l
  window_le : l.pointer + r.windowLength l ≤ r.stSize + 1
  printed_eq : l.printed = r.offsetsBelow l.pointer

theorem occursAt_ftext
    (hr : r.Searchable) :
    occursAt r.ftext r.pattern = r.occurs := by
  funext i
  rw [Bool.eq_iff_iff, Run.ftext, occursAt_filled_of_not_mem hr.zero_not_mem]
  simp [Run.occurs]

/-- One evaluation of the loop condition. -/
theorem loopInv_next
    {l : LoopState}
    (hr : r.Searchable)
    (hinv : LoopInv r l) :
    next r (.loop l) = some (.exited 0 "" (r.offsetsBelow r.stSize)) ∨
    ∃ l', next r (.loop l) = some (.loop l') ∧
      LoopInv r l' ∧
      l.pointer < l'.pointer := by
  have hsize := hr.size_le
  have hroom := stSize_lt_mappedSize hr.page
  have hpos := List.length_pos_iff.mpr hr.pattern_ne
  have hbound := hinv.pointer_le
  have hge := hinv.window_ge
  have hle := hinv.window_le
  have hprinted := hinv.printed_eq
  simp only [next]
  rw [memmem_mapped hr.pattern_ne (by omega), occursAt_ftext hr]
  cases hsearch :
      firstFrom r.occurs l.pointer
        (r.windowLength l + 1 - r.pattern.length) with
  | none =>
      left
      have hall :
          positionsBelow r.occurs r.stSize =
            positionsBelow r.occurs l.pointer := by
        refine positionsBelow_of_firstFrom_none hsearch hbound ?_
        -- behind the searched positions the pattern does not fit into the file
        intro j hj _
        by_contra hocc
        have hfits := length_of_occurs hr.pattern_ne (by simpa using hocc)
        omega
      simp only [Run.offsetsBelow, hprinted, hall]
  | some i =>
      right
      obtain ⟨hocc, hlow, -, -⟩ := firstFrom_eq_some_iff.mp hsearch
      have hfits := length_of_occurs hr.pattern_ne hocc
      have hdelta : toInt32 (i : Int) = i := toInt32_of_le (by omega)
      have hwindow :
          r.windowLength
            { pointer := i + 1
              delta := toInt32 i
              printed := l.printed ++ [toInt32 i] } = r.stSize - i := by
        refine windowLength_eq ?_ ?_
        · dsimp only
          rw [hdelta]
          omega
        · exact Nat.lt_of_le_of_lt (Nat.sub_le _ _) (stSize_lt_sizeMod r)
      refine ⟨_, rfl, ⟨?_, ?_, ?_, ?_⟩, ?_⟩
      · show i + 1 ≤ r.stSize
        omega
      · rw [hwindow]
        show r.stSize ≤ i + 1 + (r.stSize - i)
        omega
      · rw [hwindow]
        show i + 1 + (r.stSize - i) ≤ r.stSize + 1
        omega
      · show l.printed ++ [toInt32 i] = r.offsetsBelow (i + 1)
        rw [hprinted, hdelta, Run.offsetsBelow, Run.offsetsBelow,
          positionsBelow_of_firstFrom hsearch]
        simp
      · show l.pointer < i + 1
        omega

/-- The loop ends, as the pointer moves towards the end of the file. -/
theorem loop_terminates
    (hr : r.Searchable)
    (l : LoopState)
    (hinv : LoopInv r l) :
    ∃ k, stateAfter r k (.loop l) =
      .exited 0 "" (r.offsetsBelow r.stSize) := by
  induction hleft : r.stSize - l.pointer using Nat.strong_induction_on
    generalizing l with
  | _ left ih =>
      rcases loopInv_next hr hinv with hexit | ⟨l', hnext, hinv', hlt⟩
      · refine ⟨1, ?_⟩
        simp only [stateAfter, hexit]
      · have hle := hinv'.pointer_le
        obtain ⟨k, hk⟩ :=
          ih (r.stSize - l'.pointer) (by omega) l' hinv' rfl
        refine ⟨k + 1, ?_⟩
        simp only [stateAfter, hnext]
        exact hk

theorem loopInv_start
    (r : Run) :
    LoopInv r firstLoopState where
  pointer_le := Nat.zero_le _
  window_ge := by
    rw [windowLength_first]
    exact Nat.le_add_left _ _
  window_le := by
    rw [windowLength_first]
    show 0 + r.stSize ≤ r.stSize + 1
    omega
  printed_eq := rfl

theorem mem_offsetsBelow
    (hpattern : r.pattern ≠ [])
    {x : Int} :
    x ∈ r.offsetsBelow r.stSize ↔
      ∃ i : Nat, x = i ∧ r.pattern <+: r.file.drop i := by
  have hpos := List.length_pos_iff.mpr hpattern
  simp only [Run.offsetsBelow, List.mem_map, mem_positionsBelow]
  constructor
  · rintro ⟨i, ⟨-, hocc⟩, rfl⟩
    exact ⟨i, rfl, of_decide_eq_true hocc⟩
  · rintro ⟨i, rfl, hocc⟩
    have hfits := length_of_occurs hpattern (decide_eq_true hocc)
    exact ⟨i, ⟨by omega, decide_eq_true hocc⟩, rfl⟩

theorem offsetsBelow_increasing
    (r : Run)
    (n : Nat) :
    (r.offsetsBelow n).Pairwise (· < ·) := by
  refine List.Pairwise.map _ ?_ (positionsBelow_increasing r.occurs n)
  intro i j hij
  exact Int.ofNat_lt.mpr hij

/--
For a file that does not end on a page boundary the program terminates, and it
prints the offsets of all occurrences of the pattern in increasing order.
-/
theorem prints_all_occurrences
    (r : Run)
    (hcalls : r.CallsSucceed)
    (hpos : 1 ≤ r.stSize)
    (hmax : (r.stSize : Int) ≤ intMax)
    (hpage : r.stSize % r.pageSize ≠ 0)
    (hpattern : r.pattern ≠ [])
    (hzero : 0 ∉ r.pattern) :
    ∃ k printed,
      stateAfter r k (start r) = .exited 0 "" printed ∧
      printed.Pairwise (· < ·) ∧
      ∀ x : Int, x ∈ printed ↔
        ∃ i : Nat, x = i ∧ r.pattern <+: r.file.drop i := by
  have hr : r.Searchable := ⟨hmax, hpage, hpattern, hzero⟩
  have hfile : r.file ≠ [] := List.length_pos_iff.mp hpos
  obtain ⟨k, hk⟩ := loop_terminates hr _ (loopInv_start r)
  rw [start_of_calls hcalls hfile]
  exact ⟨k, _, hk, offsetsBelow_increasing r r.stSize,
    fun x => mem_offsetsBelow hpattern⟩

/-- The pattern `aa` in the text `aaab`: overlapping occurrences. -/
def overlapping : Run where
  argc := 3
  file := [97, 97, 97, 98]
  pattern := [97, 97]
  f := 3
  fstatOk := true
  mmapOk := true
  pageSize := 4096
  pageSize_pos := by decide
  size_lt := by decide

theorem prints_all_occurrences_overlapping :
    ∃ k printed,
      stateAfter overlapping k (start overlapping) = .exited 0 "" printed ∧
      printed.Pairwise (· < ·) ∧
      (1 : Int) ∈ printed := by
  obtain ⟨k, printed, hk, hsorted, hmem⟩ :=
    prints_all_occurrences overlapping ⟨rfl, by decide, rfl, rfl⟩ (by decide)
      (by decide) (by decide) (by decide) (by decide)
  exact ⟨k, printed, hk, hsorted, (hmem 1).mpr ⟨1, rfl, by decide⟩⟩

end Printing

section Windows

variable {r : Run}

/-- The window of the next call of `memmem` lies in the mapped file. -/
def WindowInside
    (r : Run)
    (l : LoopState) : Prop :=
  l.pointer + r.windowLength l ≤ r.stSize

/-- `delta` is the distance of the last match, one byte before the pointer. -/
def DeltaTrue (l : LoopState) : Prop :=
  l.printed ≠ [] → l.delta = (l.pointer : Int) - 1

instance (r : Run) (l : LoopState) : Decidable (WindowInside r l) :=
  inferInstanceAs (Decidable (_ ≤ _))

/-- The variables after the first match. -/
def afterMatch (i : Nat) : LoopState where
  pointer := i + 1
  delta := toInt32 i
  printed := [toInt32 i]

/-- The first call searches the whole file. -/
theorem first_search
    (hpattern : r.pattern ≠ []) :
    next r (.loop firstLoopState) =
      match firstFrom r.occurs 0 (r.stSize + 1 - r.pattern.length) with
      | some i => some (.loop (afterMatch i))
      | none => some (.exited 0 "" []) := by
  have hmapped :
      firstLoopState.pointer + r.windowLength firstLoopState ≤
        r.mappedSize := by
    rw [windowLength_first]
    simpa [firstLoopState] using stSize_le_mappedSize r
  have hsame :
      firstFrom (occursAt r.ftext r.pattern) 0
          (r.stSize + 1 - r.pattern.length) =
        firstFrom r.occurs 0 (r.stSize + 1 - r.pattern.length) := by
    refine firstFrom_congr (fun i _ hi => ?_)
    rw [Bool.eq_iff_iff, Run.ftext,
      occursAt_filled_of_le (by unfold Run.stSize at hi; omega)]
    simp [Run.occurs]
  simp only [next]
  rw [memmem_mapped hpattern hmapped, windowLength_first]
  have hpointer : firstLoopState.pointer = 0 := rfl
  rw [hpointer, hsame]
  cases firstFrom r.occurs 0 (r.stSize + 1 - r.pattern.length) <;> rfl

/-- After a match the window ends behind the file. -/
theorem not_windowInside_afterMatch
    {i : Nat}
    (hi : i < r.stSize) :
    ¬ WindowInside r (afterMatch i) := by
  have hsize := r.size_lt
  have hle : toInt32 (i : Int) ≤ i := toInt32_le (by omega)
  have hge := le_toInt32 i
  have hwindow :
      r.windowLength (afterMatch i) = (r.stSize - toInt32 i).toNat := by
    refine windowLength_eq ?_ ?_
    · simp only [afterMatch]
      omega
    · unfold Run.stSize sizeMod
      omega
  unfold WindowInside
  rw [hwindow]
  show ¬ i + 1 + (r.stSize - toInt32 i).toNat ≤ r.stSize
  omega

/-- The first match, if there is one, is found and leaves the loop running. -/
theorem next_first_of_occurs
    (hpattern : r.pattern ≠ [])
    {i : Nat}
    (hocc : r.pattern <+: r.file.drop i) :
    ∃ j < r.stSize,
      next r (.loop firstLoopState) = some (.loop (afterMatch j)) := by
  have hpos := List.length_pos_iff.mpr hpattern
  have hfits := length_of_occurs hpattern (decide_eq_true hocc)
  rw [first_search hpattern]
  cases hfirst : firstFrom r.occurs 0 (r.stSize + 1 - r.pattern.length) with
  | none =>
      have hnot :=
        firstFrom_eq_none_iff.mp hfirst i (Nat.zero_le i) (by omega)
      rw [Run.occurs, decide_eq_true hocc] at hnot
      cases hnot
  | some j =>
      obtain ⟨-, -, hj, -⟩ := firstFrom_eq_some_iff.mp hfirst
      exact ⟨j, by omega, rfl⟩

theorem next_first_of_not_occurs
    (hpattern : r.pattern ≠ [])
    (hnone : ¬ ∃ i, r.pattern <+: r.file.drop i) :
    next r (.loop firstLoopState) = some (.exited 0 "" []) := by
  rw [first_search hpattern]
  cases hfirst : firstFrom r.occurs 0 (r.stSize + 1 - r.pattern.length) with
  | none => rfl
  | some j =>
      have hocc := (firstFrom_eq_some_iff.mp hfirst).1
      exact absurd ⟨j, of_decide_eq_true hocc⟩ hnone

theorem stateAfter_exited
    (r : Run)
    (k code : Nat)
    (stderr : String)
    (printed : List Int) :
    stateAfter r k (.exited code stderr printed) =
      .exited code stderr printed := by
  cases k <;> rfl

/-- A run that does not reach the loop stays out of it. -/
theorem start_exited
    (hout : ¬ (r.CallsSucceed ∧ r.file ≠ [])) :
    ∃ code stderr, start r = .exited code stderr [] := by
  have hloop : ∀ l, start r ≠ .loop l := fun l h =>
    hout ⟨(start_eq_loop_iff.mp h).1, (start_eq_loop_iff.mp h).2.1⟩
  unfold start at hloop ⊢
  split_ifs at hloop ⊢
  · exact ⟨_, _, rfl⟩
  · exact ⟨_, _, rfl⟩
  · exact ⟨_, _, rfl⟩
  · exact ⟨_, _, rfl⟩
  · exact absurd rfl (hloop _)

/--
The exact condition: every window passed to `memmem` lies in the mapped file,
with a true `delta`, if and only if the loop finds no occurrence.
-/
theorem windows_inside_iff
    (r : Run)
    (hpattern : r.pattern ≠ []) :
    (∀ k l, stateAfter r k (start r) = .loop l →
      WindowInside r l ∧ DeltaTrue l)
      ↔
    (r.CallsSucceed → ¬ ∃ i, r.pattern <+: r.file.drop i) := by
  constructor
  · rintro hall hcalls ⟨i, hocc⟩
    have hfile : r.file ≠ [] := by
      rintro hnil
      rw [hnil, List.drop_nil, List.prefix_nil] at hocc
      exact hpattern hocc
    obtain ⟨j, hj, hnext⟩ := next_first_of_occurs hpattern hocc
    have hafter :
        stateAfter r 1 (start r) = .loop (afterMatch j) := by
      rw [start_of_calls hcalls hfile]
      simp only [stateAfter, hnext]
    exact not_windowInside_afterMatch hj (hall 1 _ hafter).1
  · intro hnone k l hk
    by_cases hreach : r.CallsSucceed ∧ r.file ≠ []
    · rw [start_of_calls hreach.1 hreach.2] at hk
      cases k with
      | zero =>
          cases hk
          refine ⟨?_, fun h => absurd rfl h⟩
          rw [WindowInside, windowLength_first]
          simp [firstLoopState]
      | succ k =>
          simp only [stateAfter,
            next_first_of_not_occurs hpattern (hnone hreach.1),
            stateAfter_exited] at hk
          cases hk
    · obtain ⟨code, stderr, hexit⟩ := start_exited hreach
      rw [hexit, stateAfter_exited] at hk
      cases hk

/-- A file of one byte that is also the pattern. -/
def oneMatch : Run where
  argc := 3
  file := [97]
  pattern := [97]
  f := 3
  fstatOk := true
  mmapOk := true
  pageSize := 4096
  pageSize_pos := by decide
  size_lt := by decide

/-- The second window of this run has two bytes and starts at offset 1. -/
theorem not_windows_inside_oneMatch :
    ¬ ∀ k l, stateAfter oneMatch k (start oneMatch) = .loop l →
      WindowInside oneMatch l ∧ DeltaTrue l := by
  intro hall
  exact absurd (hall 1 (afterMatch 0) (by decide)).1 (by decide)

/-- The same file searched for another byte. -/
def noMatch : Run :=
  { oneMatch with pattern := [98] }

theorem windows_inside_noMatch :
    start noMatch = .loop firstLoopState ∧
    ∀ k l, stateAfter noMatch k (start noMatch) = .loop l →
      WindowInside noMatch l ∧ DeltaTrue l := by
  refine ⟨by decide, (windows_inside_iff noMatch (by decide)).mpr ?_⟩
  rintro - ⟨i, hocc⟩
  have hmem : (98 : UInt8) ∈ ([97] : List UInt8).drop i :=
    hocc.mem (List.mem_singleton.mpr rfl)
  exact absurd (List.mem_of_mem_drop hmem) (by decide)

end Windows

end FindSubstrings
end PagingMmap
end OsSeminars
