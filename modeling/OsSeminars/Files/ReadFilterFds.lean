import OsSeminars.Files.ReadFilterWrite

/-!
# `read-filter-write.c`: the descriptors

Everything that the program keeps of its descriptors is of type `int8_t`. The results of
the three calls of `open` are of type `int`, so a descriptor above 127 becomes another
number: a negative one, the number of another descriptor, or `-1`, which the program takes
for a failure.

Here the files do not matter, but the calls and the descriptors they are made with. What
`read` and `write` return is an answer of the surroundings. The runs of the program with
its files are among these runs.
-/

namespace OsSeminars
namespace Files
namespace ReadFilterFds

open Foundation
open ReadFilterWrite (Output outputFor)

/-- A value that `open` can return. -/
def OpenResult
    (fd : Int) :
    Prop :=
  fd = -1 ∨ 0 ≤ fd ∧ fd < 2 ^ 31

/-- What the three calls of `open` return. -/
structure Opens where
  inputFile : Int
  outputFile : Output → Int
  inputFile_result : OpenResult inputFile
  outputFile_result : ∀ out, OpenResult (outputFile out)

inductive Call
  | read (fd : Int)
  | write (fd : Int) (byte : UInt8)
  | close (fd : Int)
  deriving DecidableEq

/-- What `write` and then `read` return in an iteration, and the byte that is read. -/
structure Answer where
  write : Int
  read : Int
  byte : UInt8

/-- The variables of `main`, and the calls it has made behind those of `open`. -/
structure State where
  inputByte : UInt8
  inputFileRead : Int
  calls : List Call

/-- `input_file_read = read(input_file, &input_byte, sizeof(char))` -/
def readInput
    (o : Opens)
    (answer : Answer)
    (s : State) :
    State where
  inputByte := if answer.read > 0 then answer.byte else s.inputByte
  inputFileRead := toInt8 answer.read
  calls := s.calls ++ [.read (toInt8 o.inputFile)]

/-- `exit: close(input_file); close(output_file1); close(output_file2); return code;` -/
def exit
    (o : Opens)
    (code : Int)
    (s : State) :
    LoopState State Int :=
  .returned code { s with
    calls := s.calls ++ [
      .close (toInt8 o.inputFile),
      .close (toInt8 (o.outputFile .file1)),
      .close (toInt8 (o.outputFile .file2))] }

/-- `output = write(output_file, &input_byte, sizeof(char))` -/
def writeOutput
    (o : Opens)
    (s : State) :
    State :=
  { s with
    calls := s.calls ++ [
      .write (toInt8 (o.outputFile (outputFor s.inputByte))) s.inputByte] }

/-- One iteration of `while (input_file_read > 0)`, or what follows the loop. -/
def iteration
    (o : Opens)
    (answer : Answer)
    (s : State) :
    LoopState State Int :=
  if s.inputFileRead > 0 then
    if toInt8 answer.write = -1 then exit o 3 (writeOutput o s)
    else .running (readInput o answer (writeOutput o s))
  else if s.inputFileRead = -1 then exit o 3 s
  else exit o 0 s

/-- The state behind the calls of `open`, with the variables not initialised. -/
def opened
    (inputByte : UInt8)
    (inputFileRead : Int) :
    State where
  inputByte := inputByte
  inputFileRead := inputFileRead
  calls := []

/-- `main` after a number of iterations; `first` answers the `read` in front of the
loop. -/
def main
    (o : Opens)
    (first : Answer)
    (answers : Nat → Answer)
    (s : State)
    (k : Nat) :
    LoopState State Int :=
  if toInt8 o.inputFile = -1 then exit o 1 s
  else if toInt8 (o.outputFile .file1) = -1 ∨ toInt8 (o.outputFile .file2) = -1 then
    exit o 2 s
  else LoopState.after (iteration o) answers (readInput o first s) k

namespace Opens

/-- All three calls have succeeded. -/
def Succeeded
    (o : Opens) :
    Prop :=
  o.inputFile ≠ -1 ∧ ∀ out, o.outputFile out ≠ -1

/-- The call reads from the descriptor of the input, or it writes to the descriptor of the
file that the byte belongs to. -/
def Precise
    (o : Opens) :
    Call → Prop
  | .read fd => fd = o.inputFile
  | .write fd byte => fd = o.outputFile (outputFor byte)
  | .close _ => False

/-- The descriptors are closed. -/
def closes
    (o : Opens) :
    List Call :=
  [.close o.inputFile, .close (o.outputFile .file1), .close (o.outputFile .file2)]

/-- The descriptors are numbers of type `int8_t`. -/
def Small
    (o : Opens) :
    Prop :=
  (0 ≤ o.inputFile ∧ o.inputFile ≤ 127) ∧
  ∀ out, 0 ≤ o.outputFile out ∧ o.outputFile out ≤ 127

end Opens

/-- In every run the exit status says which call of `open` has failed, and if all of them
have succeeded, all other calls are made with the descriptors returned. -/
def UsesDescriptors
    (o : Opens) :
    Prop :=
  ∀ first answers inputByte inputFileRead k,
    (main o first answers (opened inputByte inputFileRead) k).Holds
      (fun s => o.Succeeded ∧ ∀ call ∈ s.calls, o.Precise call)
      (fun code s =>
        (code = 1 ↔ o.inputFile = -1) ∧
        (code = 2 ↔ o.inputFile ≠ -1 ∧ ∃ out, o.outputFile out = -1) ∧
        (o.Succeeded →
          ∃ calls, s.calls = calls ++ o.closes ∧ ∀ call ∈ calls, o.Precise call))

section Descriptors

variable {o : Opens} {s : State}

theorem closes_eq_iff :
    [Call.close (toInt8 o.inputFile), .close (toInt8 (o.outputFile .file1)),
      .close (toInt8 (o.outputFile .file2))] = o.closes ↔
        toInt8 o.inputFile = o.inputFile ∧
          ∀ out, toInt8 (o.outputFile out) = o.outputFile out := by
  simp only [Opens.closes, List.cons.injEq, Call.close.injEq, and_true]
  constructor
  · rintro ⟨hinput, hfile1, hfile2⟩
    refine ⟨hinput, fun out => ?_⟩
    cases out with
    | file1 =>
        exact hfile1
    | file2 =>
        exact hfile2
  · rintro ⟨hinput, houtput⟩
    exact ⟨hinput, houtput .file1, houtput .file2⟩

/-- Descriptors that fit into `int8_t` are kept. -/
theorem Opens.Small.toInt8_eq
    (h : o.Small) :
    toInt8 o.inputFile = o.inputFile ∧
      ∀ out, toInt8 (o.outputFile out) = o.outputFile out := by
  refine ⟨toInt8_eq_iff.mpr ⟨by have := h.1.1; omega, h.1.2⟩, fun out => ?_⟩
  have hout := h.2 out
  exact toInt8_eq_iff.mpr ⟨by omega, hout.2⟩

/-- All calls so far have been made with the descriptors returned. -/
def Running
    (o : Opens)
    (s : State) :
    Prop :=
  ∀ call ∈ s.calls, o.Precise call

/-- The program has closed the descriptors and returns another status than 1 or 2. -/
def Exited
    (o : Opens)
    (code : Int)
    (s : State) :
    Prop :=
  (code = 0 ∨ code = 3) ∧
    ∃ calls, s.calls = calls ++ o.closes ∧ ∀ call ∈ calls, o.Precise call

theorem Running.concat
    (h : Running o s)
    {call : Call}
    (hcall : o.Precise call) :
    ∀ c ∈ s.calls ++ [call], o.Precise c := by
  intro c hc
  rcases List.mem_append.mp hc with hc | hc
  · exact h c hc
  · rw [List.mem_singleton.mp hc]
    exact hcall

theorem exited_exit
    (ho : o.Small)
    (h : Running o s)
    {code : Int}
    (hcode : code = 0 ∨ code = 3) :
    (exit o code s).Holds (Running o) (Exited o) :=
  ⟨hcode, s.calls, by rw [← closes_eq_iff.mpr ho.toInt8_eq], h⟩

theorem running_readInput
    (ho : o.Small)
    (h : Running o s)
    (answer : Answer) :
    Running o (readInput o answer s) :=
  h.concat ho.toInt8_eq.1

theorem running_writeOutput
    (ho : o.Small)
    (h : Running o s) :
    Running o (writeOutput o s) :=
  h.concat (ho.toInt8_eq.2 _)

theorem holds_iteration
    (ho : o.Small)
    (h : Running o s)
    (answer : Answer) :
    (iteration o answer s).Holds (Running o) (Exited o) := by
  rw [iteration]
  split_ifs
  · exact exited_exit ho (running_writeOutput ho h) (Or.inr rfl)
  · exact running_readInput ho (running_writeOutput ho h) answer
  · exact exited_exit ho h (Or.inr rfl)
  · exact exited_exit ho h (Or.inl rfl)

theorem Opens.Small.succeeded
    (h : o.Small) :
    o.Succeeded :=
  ⟨by have := h.1.1; omega, fun out => by have := (h.2 out).1; omega⟩

theorem usesDescriptors_of_small
    (ho : o.Small) :
    UsesDescriptors o := by
  intro first answers inputByte inputFileRead k
  have hinput := ho.toInt8_eq.1
  have houtput := ho.toInt8_eq.2
  have hsucceeded := ho.succeeded
  have hloop := LoopState.holds_after
    (running_readInput ho (s := opened inputByte inputFileRead) (fun _ h => by cases h) first)
    (fun k s _ h => holds_iteration ho h (answers k)) k
  rw [main, hinput, if_neg hsucceeded.1, houtput, houtput,
    if_neg (not_or_intro (hsucceeded.2 .file1) (hsucceeded.2 .file2))]
  refine hloop.imp (fun s h => ⟨hsucceeded, h⟩) (fun code s h => ?_)
  obtain ⟨hcode, hcalls⟩ := h
  refine ⟨⟨fun hone => ?_, fun hfailed => absurd hfailed hsucceeded.1⟩,
    ⟨fun htwo => ?_, fun hfailed => ?_⟩, fun _ => hcalls⟩
  · rcases hcode with rfl | rfl <;> cases hone
  · rcases hcode with rfl | rfl <;> cases htwo
  · obtain ⟨-, out, hout⟩ := hfailed
    exact absurd hout (hsucceeded.2 out)

/-- A failure of the first call is always seen. -/
theorem usesDescriptors_of_input_failed
    (h : o.inputFile = -1) :
    UsesDescriptors o := by
  intro first answers inputByte inputFileRead k
  have hinput : toInt8 o.inputFile = -1 := by rw [h, toInt8_neg_one]
  rw [main, if_pos hinput]
  refine ⟨iff_of_true rfl h, ⟨fun htwo => ?_, fun hfailed => absurd h hfailed.1⟩,
    fun hsucceeded => absurd h hsucceeded.1⟩
  cases htwo

/-- So is a failure of another call, if the first descriptor does not look like one. -/
theorem usesDescriptors_of_output_failed
    (hinput : toInt8 o.inputFile ≠ -1)
    (hfailed : ∃ out, o.outputFile out = -1) :
    UsesDescriptors o := by
  intro first answers inputByte inputFileRead k
  have hother : o.inputFile ≠ -1 := fun h => hinput (by rw [h, toInt8_neg_one])
  have hseen : toInt8 (o.outputFile .file1) = -1 ∨ toInt8 (o.outputFile .file2) = -1 := by
    obtain ⟨out, hout⟩ := hfailed
    cases out with
    | file1 =>
        exact Or.inl (by rw [hout, toInt8_neg_one])
    | file2 =>
        exact Or.inr (by rw [hout, toInt8_neg_one])
  rw [main, if_neg hinput, if_pos hseen]
  refine ⟨⟨fun hone => ?_, fun h => absurd h hother⟩, iff_of_true rfl ⟨hother, hfailed⟩,
    fun hsucceeded => ?_⟩
  · cases hone
  · obtain ⟨out, hout⟩ := hfailed
    exact absurd hout (hsucceeded.2 out)

/-- The input is empty, and nothing fails. -/
def emptyInput : Answer where
  write := 1
  read := 0
  byte := 0

/-- On an empty input the program exits and closes its descriptors. -/
theorem main_emptyInput
    (hinput : toInt8 o.inputFile ≠ -1)
    (houtput : ∀ out, toInt8 (o.outputFile out) ≠ -1) :
    main o emptyInput (fun _ => emptyInput) (opened 0 0) 1 =
      exit o 0 (readInput o emptyInput (opened 0 0)) := by
  rw [main, if_neg hinput, if_neg (not_or_intro (houtput .file1) (houtput .file2))]
  rfl

/-- A descriptor that is kept fits into `int8_t`. -/
theorem small_of_toInt8_eq
    {fd : Int}
    (hresult : OpenResult fd)
    (hne : fd ≠ -1)
    (h : toInt8 fd = fd) :
    0 ≤ fd ∧ fd ≤ 127 :=
  ⟨(hresult.resolve_left hne).1, (toInt8_eq_iff.mp h).2⟩

theorem small_of_usesDescriptors
    (h : UsesDescriptors o)
    (ho : o.Succeeded) :
    o.Small := by
  have hrun := h emptyInput (fun _ => emptyInput) 0 0 1
  have hinput : toInt8 o.inputFile ≠ -1 := by
    intro hseen
    rw [main, if_pos hseen] at hrun
    exact ho.1 (hrun.1.mp rfl)
  have houtput (out : Output) : toInt8 (o.outputFile out) ≠ -1 := by
    intro hseen
    have hsome : toInt8 (o.outputFile .file1) = -1 ∨ toInt8 (o.outputFile .file2) = -1 := by
      cases out with
      | file1 =>
          exact Or.inl hseen
      | file2 =>
          exact Or.inr hseen
    rw [main, if_neg hinput, if_pos hsome] at hrun
    obtain ⟨-, out', hfailed⟩ := hrun.2.1.mp rfl
    exact ho.2 out' hfailed
  rw [main_emptyInput hinput houtput] at hrun
  obtain ⟨calls, hcalls, -⟩ := hrun.2.2 ho
  have hcloses := List.append_inj_right' hcalls rfl
  obtain ⟨hkept, hkeptOutput⟩ := closes_eq_iff.mp hcloses
  exact ⟨small_of_toInt8_eq o.inputFile_result ho.1 hkept, fun out =>
    small_of_toInt8_eq (o.outputFile_result out) (ho.2 out) (hkeptOutput out)⟩

/-- The exit status is right and all calls are made with the descriptors returned, if and
only if the first call of `open` has failed, or another call has failed and the first
descriptor does not become `-1` as an `int8_t`, or all descriptors are at most 127. -/
theorem usesDescriptors_iff
    (o : Opens) :
    UsesDescriptors o ↔
      o.inputFile = -1 ∨
      (toInt8 o.inputFile ≠ -1 ∧ ∃ out, o.outputFile out = -1) ∨
      o.Small := by
  constructor
  · intro h
    by_cases hfailed : o.inputFile = -1
    · exact Or.inl hfailed
    · by_cases hother : ∃ out, o.outputFile out = -1
      · refine Or.inr (Or.inl ⟨fun hseen => ?_, hother⟩)
        have hrun := h emptyInput (fun _ => emptyInput) 0 0 1
        rw [main, if_pos hseen] at hrun
        exact hfailed (hrun.1.mp rfl)
      · exact Or.inr (Or.inr
          (small_of_usesDescriptors h ⟨hfailed, fun out hout => hother ⟨out, hout⟩⟩))
  · rintro (hfailed | ⟨hinput, hother⟩ | hsmall)
    · exact usesDescriptors_of_input_failed hfailed
    · exact usesDescriptors_of_output_failed hinput hother
    · exact usesDescriptors_of_small hsmall

/-- The descriptors 255, 256 and 257. -/
def manyDescriptors : Opens where
  inputFile := 255
  outputFile
    | .file1 => 256
    | .file2 => 257
  inputFile_result := Or.inr (by decide)
  outputFile_result out := by
    cases out with
    | file1 =>
        exact Or.inr (by decide)
    | file2 =>
        exact Or.inr (by decide)

/-- The descriptor 255 is taken for a failure. -/
theorem not_usesDescriptors_many :
    ¬UsesDescriptors manyDescriptors := by
  intro h
  have hsmall := small_of_usesDescriptors h
    ⟨by decide, fun out => by cases out <;> decide⟩
  exact absurd hsmall.1.2 (by decide)

end Descriptors

section Files

/-! The runs of the program with its files are runs in which these are the answers. -/

variable (o : ReadFilterWrite.Opens)

/-- What `read` returns in a run with files, and the byte that is there afterwards. -/
def answerOfRead
    (write : Int)
    (succeeds : Bool)
    (s : ReadFilterWrite.State) :
    Answer where
  write := write
  read := (ReadFilterWrite.readInput o succeeds s).inputFileRead
  byte := (ReadFilterWrite.readInput o succeeds s).inputByte

/-- What the calls of an iteration return in a run with files. -/
def answerOf
    (answer : ReadFilterWrite.Answer)
    (s : ReadFilterWrite.State) :
    Answer :=
  let (output, s) := ReadFilterWrite.writeOutput o answer.write (outputFor s.inputByte) s
  answerOfRead o output answer.read s

/-- The answers to a run with files. -/
def answersOf
    (first : Bool)
    (answers : Nat → ReadFilterWrite.Answer)
    (s : ReadFilterWrite.State)
    (k : Nat) :
    Answer :=
  match LoopState.after (ReadFilterWrite.iteration o) answers
      (ReadFilterWrite.readInput o first s) k with
  | .running t => answerOf o (answers k) t
  | .returned _ _ => ⟨0, 0, 0⟩

/-- The variables have the same values. -/
def SameVariables
    (s : ReadFilterWrite.State)
    (t : State) :
    Prop :=
  t.inputByte = s.inputByte ∧ t.inputFileRead = s.inputFileRead

variable {o} {o' : Opens} {s : ReadFilterWrite.State} {t : State}

/-- `read` returns `-1`, `0` or `1`, and it changes the byte in the last case only. -/
theorem readInput_cases
    (succeeds : Bool) :
    let s' := ReadFilterWrite.readInput o succeeds s
    (s'.inputFileRead = -1 ∨ s'.inputFileRead = 0) ∧ s'.inputByte = s.inputByte ∨
      s'.inputFileRead = 1 := by
  have hone : toInt8 1 = 1 := toInt8_eq_iff.mpr ⟨by decide, by decide⟩
  have hzero : toInt8 0 = 0 := toInt8_eq_iff.mpr ⟨by decide, by decide⟩
  dsimp only
  unfold ReadFilterWrite.readInput
  split
  · split
    · exact Or.inl ⟨Or.inr hzero, rfl⟩
    · exact Or.inr hone
  · split
    · exact Or.inl ⟨Or.inr hzero, rfl⟩
    · exact Or.inr hone
  · exact Or.inl ⟨Or.inl toInt8_neg_one, rfl⟩

theorem sameVariables_readInput
    (h : SameVariables s t)
    (write : Int)
    (succeeds : Bool) :
    SameVariables (ReadFilterWrite.readInput o succeeds s)
      (readInput o' (answerOfRead o write succeeds s) t) := by
  have hkept {x : Int} (hx : x = -1 ∨ x = 0 ∨ x = 1) : toInt8 x = x :=
    toInt8_eq_iff.mpr (by omega)
  rcases readInput_cases (o := o) (s := s) succeeds with ⟨hread, hbyte⟩ | hread
  · have hnot : ¬(ReadFilterWrite.readInput o succeeds s).inputFileRead > 0 := by omega
    refine ⟨?_, hkept (hread.imp_right Or.inl)⟩
    rw [hbyte, ← h.1]
    exact if_neg hnot
  · have hpos : (ReadFilterWrite.readInput o succeeds s).inputFileRead > 0 := by omega
    exact ⟨if_pos hpos, hkept (Or.inr (Or.inr hread))⟩

/-- A call of `write` leaves the variables as they are. -/
theorem sameVariables_writeOutput
    (h : SameVariables s t)
    (succeeds : Bool)
    (out : Output) :
    SameVariables (ReadFilterWrite.writeOutput o succeeds out s).2 (writeOutput o' t) := by
  unfold ReadFilterWrite.writeOutput
  split
  · exact h
  · exact h
  · exact h

theorem related_iteration
    (h : SameVariables s t)
    (answer : ReadFilterWrite.Answer) :
    LoopState.Related SameVariables (ReadFilterWrite.iteration o answer s)
      (iteration o' (answerOf o answer s) t) := by
  have hwrite : SameVariables
      (ReadFilterWrite.writeOutput o answer.write (outputFor s.inputByte) s).2
      (writeOutput o' t) :=
    sameVariables_writeOutput h answer.write (outputFor s.inputByte)
  rw [ReadFilterWrite.iteration, iteration, h.2]
  by_cases hread : s.inputFileRead > 0
  · rw [if_pos hread, if_pos hread, answerOf]
    generalize ReadFilterWrite.writeOutput o answer.write (outputFor s.inputByte) s = result
      at hwrite ⊢
    obtain ⟨output, s'⟩ := result
    dsimp only at hwrite ⊢
    change LoopState.Related _ _ (if toInt8 output = -1 then _ else _)
    split_ifs
    · rfl
    · exact sameVariables_readInput hwrite output answer.read
  · rw [if_neg hread, if_neg hread]
    split_ifs <;> rfl

/-- A run of the program with its files makes the same steps as the run with the answers
of these files, and it returns the same. -/
theorem related_main
    (hinput : o'.inputFile = o.inputFile)
    (houtput : ∀ out, o'.outputFile out = o.outputFile out)
    (first : Bool)
    (answers : Nat → ReadFilterWrite.Answer)
    (h : SameVariables s t)
    (k : Nat) :
    LoopState.Related SameVariables (ReadFilterWrite.main o first answers s k)
      (main o' (answerOfRead o 0 first s) (answersOf o first answers s) t k) := by
  rw [ReadFilterWrite.main, main, hinput, houtput, houtput]
  split_ifs
  · rfl
  · rfl
  · refine LoopState.related_after (sameVariables_readInput h 0 first)
      (fun k s' t' hk hsame => ?_) k
    rw [answersOf, hk]
    exact related_iteration hsame (answers k)

end Files

end ReadFilterFds
end Files
end OsSeminars
