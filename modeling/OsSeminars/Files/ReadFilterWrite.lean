import OsSeminars.Foundation.AnsweredLoop
import OsSeminars.Foundation.MachineInt
import OsSeminars.Foundation.OpenFiles

/-!
# `read-filter-write.c`

The program copies its input byte by byte, the decimal digits into one file and the other
bytes into a second one. Every call of `read` and `write` may fail; the answers of the
surroundings say which do.

The descriptors are kept in variables of type `int8_t`. The number that a variable holds
leads to the file just opened, to nothing, or to something else: to another one of the
three files, or to what the process has inherited under that number.

Between a read and the write of its byte the program is one byte ahead of its output. At
every other moment, and at its exit, the bytes written through the two descriptors are
the two parts of one prefix of the input. The output files are opened without `O_TRUNC`,
so what they have held before remains behind the bytes written.
-/

namespace OsSeminars
namespace Files
namespace ReadFilterWrite

open Foundation

/-- The two output files. -/
inductive Output
  | file1
  | file2
  deriving DecidableEq

/-- What a process inherits under a number: a pipe or a terminal with the bytes that can
be read from it, or an open description of a file. -/
inductive Inherited
  | stream (input : List UInt8)
  | file (description : Description Nat)

namespace Inherited

/-- The next byte, and what is left. -/
def read
    (files : Nat → List UInt8) :
    Inherited → Option (UInt8 × Inherited)
  | .stream [] => none
  | .stream (b :: input) => some (b, .stream input)
  | .file d =>
      (files d.file)[d.offset]?.map fun b => (b, .file { d with offset := d.offset + 1 })

/-- What is left, and the files behind the write. -/
def write
    (files : Nat → List UInt8)
    (b : UInt8) :
    Inherited → Inherited × (Nat → List UInt8)
  | .stream input => (.stream input, files)
  | .file d =>
      let old := files d.file
      let offset := if d.appends then old.length else d.offset
      (.file { d with offset := offset + 1 },
        Function.update files d.file (FileContents.writeAt old offset [b]))

end Inherited

/-- What a number leads to behind the calls of `open`. -/
inductive Referent
  | input
  | output (out : Output)
  | inherited (description : Nat)
  | nothing

namespace Referent

/-- The input is opened with `O_RDONLY`, the outputs with `O_WRONLY`. -/
def readable : Referent → Bool
  | .input | .inherited _ => true
  | .output _ | .nothing => false

def writable : Referent → Bool
  | .output _ | .inherited _ => true
  | .input | .nothing => false

end Referent

/-- The values that the three calls of `open` return, and the descriptions that the
process has inherited. A call that succeeds returns a number that is not in use. -/
structure Descriptors where
  inputFile : Int
  outputFile : Output → Int
  inherited : Int → Option Nat
  inputFile_free : inputFile ≠ -1 → ∀ out, outputFile out ≠ inputFile
  outputFile_free : outputFile .file1 ≠ -1 → outputFile .file2 ≠ outputFile .file1

/-- The descriptors, and the files that they have been opened for. -/
structure Opens extends Descriptors where
  input : Nat
  output : Output → Nat

/-- What a number leads to. -/
def Descriptors.referent
    (fds : Descriptors)
    (fd : Int) :
    Referent :=
  if fd < 0 then .nothing
  else if fd = fds.inputFile then .input
  else if fd = fds.outputFile .file1 then .output .file1
  else if fd = fds.outputFile .file2 then .output .file2
  else (fds.inherited fd).elim .nothing .inherited

/-- What the value of `input_file` leads to. -/
def Descriptors.source
    (fds : Descriptors) :
    Referent :=
  fds.referent (toInt8 fds.inputFile)

/-- What the values of `output_file1` and `output_file2` lead to. -/
def Descriptors.sink
    (fds : Descriptors)
    (out : Output) :
    Referent :=
  fds.referent (toInt8 (fds.outputFile out))

/-- Whether the calls of an iteration succeed. -/
structure Answer where
  write : Bool
  read : Bool

/-- The variables of `main`, the files, the positions of the descriptors in them, what is
inherited, the bytes written through each variable, and the values that `read` and `write`
have returned. -/
structure State where
  files : Nat → List UInt8
  inputPosition : Nat
  position : Output → Nat
  descriptions : Nat → Inherited
  inputByte : UInt8
  inputFileRead : Int
  written : Output → List UInt8
  results : List Int

/-- `input_byte <= '9' && input_byte >= '0'`. -/
def isDigit
    (inputByte : UInt8) :
    Bool :=
  inputByte ≤ 57 && inputByte ≥ 48

/-- The choice of `output_file`. -/
def outputFor
    (inputByte : UInt8) :
    Output :=
  if isDigit inputByte then .file1 else .file2

/-- `read` returns a value that is not positive. -/
def State.notRead
    (s : State)
    (result : Int) :
    State :=
  { s with inputFileRead := toInt8 result, results := s.results ++ [result] }

/-- `read` stores a byte and returns `1`. -/
def State.hasRead
    (s : State)
    (b : UInt8) :
    State :=
  { s with inputByte := b, inputFileRead := toInt8 1, results := s.results ++ [1] }

/-- `input_file_read = read(input_file, &input_byte, sizeof(char))`. -/
def readInput
    (o : Opens)
    (succeeds : Bool)
    (s : State) :
    State :=
  match o.source, succeeds with
  | .input, true =>
      match (s.files o.input)[s.inputPosition]? with
      | none => s.notRead 0
      | some b => { s.hasRead b with inputPosition := s.inputPosition + 1 }
  | .inherited d, true =>
      match (s.descriptions d).read s.files with
      | none => s.notRead 0
      | some (b, rest) =>
          { s.hasRead b with descriptions := Function.update s.descriptions d rest }
  | _, _ => s.notRead (-1)

/-- `write` returns `1`. -/
def State.hasWritten
    (s : State)
    (out : Output) :
    State :=
  { s with
    written := Function.update s.written out (s.written out ++ [s.inputByte])
    results := s.results ++ [1] }

/-- `write(output_file, &input_byte, sizeof(char))`. -/
def writeOutput
    (o : Opens)
    (succeeds : Bool)
    (out : Output)
    (s : State) :
    Int × State :=
  match o.sink out, succeeds with
  | .output file, true =>
      (1, { s.hasWritten out with
        files := Function.update s.files (o.output file)
          (FileContents.writeAt (s.files (o.output file)) (s.position file) [s.inputByte])
        position := Function.update s.position file (s.position file + 1) })
  | .inherited d, true =>
      let (rest, files) := (s.descriptions d).write s.files s.inputByte
      (1, { s.hasWritten out with
        files := files
        descriptions := Function.update s.descriptions d rest })
  | _, _ => (-1, { s with results := s.results ++ [-1] })

/-- One iteration of `while (input_file_read > 0)`, or what follows the loop. -/
def iteration
    (o : Opens)
    (answer : Answer)
    (s : State) :
    LoopState State Int :=
  if s.inputFileRead > 0 then
    let (output, s) := writeOutput o answer.write (outputFor s.inputByte) s
    if toInt8 output = -1 then
      .returned 3 s
    else
      .running (readInput o answer.read s)
  else if s.inputFileRead = -1 then
    .returned 3 s
  else
    .returned 0 s

/-- The state behind the calls of `open`, with the variables not initialised. -/
def opened
    (files : Nat → List UInt8)
    (descriptions : Nat → Inherited)
    (inputByte : UInt8)
    (inputFileRead : Int) :
    State where
  files := files
  inputPosition := 0
  position _ := 0
  descriptions := descriptions
  inputByte := inputByte
  inputFileRead := inputFileRead
  written _ := []
  results := []

/-- `main` after a number of iterations; `first` is the answer to the `read` in front of
the loop. -/
def main
    (o : Opens)
    (first : Bool)
    (answers : Nat → Answer)
    (s : State)
    (k : Nat) :
    LoopState State Int :=
  if toInt8 o.inputFile = -1 then
    .returned 1 s
  else if toInt8 (o.outputFile .file1) = -1 ∨ toInt8 (o.outputFile .file2) = -1 then
    .returned 2 s
  else
    LoopState.after (iteration o) answers (readInput o first s) k

/-- The bytes for one of the output files, in their order. -/
def bytesFor : Output → List UInt8 → List UInt8
  | .file1, bytes => bytes.filter isDigit
  | .file2, bytes => bytes.filter fun b => !isDigit b

section Filtering

variable {o : Opens} {files : Nat → List UInt8} {s : State} {n : Nat}

theorem length_bytesFor_le
    (out : Output)
    (bytes : List UInt8) :
    (bytesFor out bytes).length ≤ bytes.length := by
  cases out with
  | file1 =>
      exact List.length_filter_le _ _
  | file2 =>
      exact List.length_filter_le _ _

/-- A byte goes to the file chosen for it, and to no other one. -/
theorem bytesFor_append_singleton
    (out : Output)
    (bytes : List UInt8)
    (b : UInt8) :
    bytesFor out (bytes ++ [b]) =
      if out = outputFor b then bytesFor out bytes ++ [b] else bytesFor out bytes := by
  cases hdigit : isDigit b <;> cases out <;>
    simp [bytesFor, outputFor, hdigit]

/-- The first `n` bytes of the input have been written, and what comes behind them is
still in the file. -/
structure Copied
    (o : Opens)
    (files : Nat → List UInt8)
    (n : Nat)
    (s : State) :
    Prop where
  written : ∀ out, s.written out = bytesFor out ((files o.input).take n)
  position : ∀ out, s.position out = (s.written out).length
  unread : ∀ i, n ≤ i → (s.files o.input)[i]? = (files o.input)[i]?

/-- The output files hold what has been written, and their former contents behind it. -/
def Stored
    (o : Opens)
    (files : Nat → List UInt8)
    (s : State) :
    Prop :=
  ∀ out, s.files (o.output out) =
    s.written out ++ (files (o.output out)).drop (s.written out).length

/-- The outcome of the last `read`, behind `n` bytes: the next byte, the end of the
input, or a failure. -/
inductive LastRead
    (input : List UInt8)
    (n : Nat)
    (s : State) :
    Prop
  | byte
      (result : s.inputFileRead = 1)
      (position : s.inputPosition = n + 1)
      (next : input[n]? = some s.inputByte)
      (unfailed : -1 ∉ s.results)
  | ended
      (result : s.inputFileRead = 0)
      (all : n = input.length)
      (unfailed : -1 ∉ s.results)
  | failed
      (result : s.inputFileRead = -1)
      (failed : -1 ∈ s.results)

/-- No number that `int8_t` makes of a descriptor leads elsewhere: it leads to the file
that has been opened, or the calls fail. -/
structure Descriptors.Kept
    (fds : Descriptors) :
    Prop where
  input : fds.source.readable = true → fds.source = .input
  output : ∀ out, (fds.sink out).writable = true → fds.sink out = .output out

/-- A read changes neither the files nor what has been written. -/
theorem readInput_frame
    (o : Opens)
    (succeeds : Bool)
    (s : State) :
    (readInput o succeeds s).files = s.files ∧
    (readInput o succeeds s).position = s.position ∧
    (readInput o succeeds s).written = s.written := by
  unfold readInput
  split
  · split
    · exact ⟨rfl, rfl, rfl⟩
    · exact ⟨rfl, rfl, rfl⟩
  · split
    · exact ⟨rfl, rfl, rfl⟩
    · exact ⟨rfl, rfl, rfl⟩
  · exact ⟨rfl, rfl, rfl⟩

theorem readInput_of_failed
    {succeeds : Bool}
    (h : o.source.readable = false ∨ succeeds = false)
    (s : State) :
    readInput o succeeds s = s.notRead (-1) := by
  unfold readInput
  rcases h with h | rfl
  · cases hsource : o.source <;> rw [hsource] at h <;> first | rfl | cases h
  · cases o.source <;> rfl

theorem readInput_of_input
    (h : o.source = .input)
    (s : State) :
    readInput o true s =
      match (s.files o.input)[s.inputPosition]? with
      | none => s.notRead 0
      | some b => { s.hasRead b with inputPosition := s.inputPosition + 1 } := by
  unfold readInput
  rw [h]

theorem writeOutput_of_failed
    {succeeds : Bool}
    {out : Output}
    (h : (o.sink out).writable = false ∨ succeeds = false)
    (s : State) :
    writeOutput o succeeds out s = (-1, { s with results := s.results ++ [-1] }) := by
  unfold writeOutput
  rcases h with h | rfl
  · cases hsink : o.sink out <;> rw [hsink] at h <;> first | rfl | cases h
  · cases o.sink out <;> rfl

theorem writeOutput_of_output
    {out file : Output}
    (h : o.sink out = .output file)
    (s : State) :
    writeOutput o true out s =
      (1, { s.hasWritten out with
        files := Function.update s.files (o.output file)
          (FileContents.writeAt (s.files (o.output file)) (s.position file) [s.inputByte])
        position := Function.update s.position file (s.position file + 1) }) := by
  unfold writeOutput
  rw [h]

theorem Copied.readInput
    (h : Copied o files n s)
    (succeeds : Bool) :
    Copied o files n (readInput o succeeds s) := by
  obtain ⟨hfiles, hposition, hwritten⟩ := readInput_frame o succeeds s
  refine ⟨?_, ?_, ?_⟩
  · rw [hwritten]
    exact h.written
  · rw [hposition, hwritten]
    exact h.position
  · rw [hfiles]
    exact h.unread

theorem Stored.readInput
    (h : Stored o files s)
    (succeeds : Bool) :
    Stored o files (readInput o succeeds s) := by
  obtain ⟨hfiles, -, hwritten⟩ := readInput_frame o succeeds s
  rw [Stored, hfiles, hwritten]
  exact h

theorem Copied.lastRead
    (h : Copied o files n s)
    (hkept : o.Kept)
    (hle : n ≤ (files o.input).length)
    (hposition : s.inputPosition = n)
    (hunfailed : -1 ∉ s.results)
    (succeeds : Bool) :
    LastRead (files o.input) n (ReadFilterWrite.readInput o succeeds s) := by
  have hread := h.unread n (Nat.le_refl n)
  rw [← hposition] at hread
  by_cases hfail : o.source.readable = false ∨ succeeds = false
  · rw [readInput_of_failed hfail]
    exact .failed rfl (List.mem_append_right _ (List.mem_singleton.mpr rfl))
  · rw [not_or, Bool.not_eq_false, Bool.not_eq_false] at hfail
    rw [hfail.2, readInput_of_input (hkept.input hfail.1)]
    cases hbyte : (s.files o.input)[s.inputPosition]? with
    | none =>
        rw [hbyte, hposition] at hread
        have hend : n = (files o.input).length :=
          Nat.le_antisymm hle (List.getElem?_eq_none_iff.mp hread.symm)
        refine .ended rfl hend ?_
        simpa [State.notRead] using hunfailed
    | some b =>
        rw [hbyte, hposition] at hread
        refine .byte rfl (by rw [← hposition]) hread.symm ?_
        simpa [State.hasRead] using hunfailed

/-- A write that succeeds makes up for the read in front of it. -/
theorem Copied.writeOutput
    (h : Copied o files n s)
    (hnext : (files o.input)[n]? = some s.inputByte)
    {out : Output}
    (hout : out = outputFor s.inputByte)
    (hsink : o.sink out = .output out) :
    Copied o files (n + 1) (writeOutput o true out s).2 := by
  have hbytes : ∀ other, bytesFor other ((files o.input).take (n + 1)) =
      if other = out then s.written other ++ [s.inputByte] else s.written other := by
    intro other
    rw [List.take_add_one, hnext, Option.toList_some, bytesFor_append_singleton, h.written,
      hout]
  rw [writeOutput_of_output hsink]
  refine ⟨fun other => ?_, fun other => ?_, fun i hi => ?_⟩
  · rw [hbytes]
    by_cases hother : other = out
    · rw [if_pos hother, hother]
      exact Function.update_self _ _ _
    · rw [if_neg hother]
      exact Function.update_of_ne hother _ _
  · by_cases hother : other = out
    · subst hother
      simp only [State.hasWritten, Function.update_self, List.length_append,
        List.length_singleton]
      rw [h.position]
    · simp only [State.hasWritten, Function.update_of_ne hother]
      exact h.position other
  · have hposition : s.position out ≤ n := by
      have hlength := length_bytesFor_le out ((files o.input).take n)
      rw [h.position, h.written]
      exact Nat.le_trans hlength (List.length_take_le _ _)
    have hunread := h.unread i (by omega)
    by_cases hsame : o.input = o.output out
    · rw [← hunread, hsame]
      simp only [Function.update_self]
      exact FileContents.getElem?_writeAt_of_le
        (by rw [List.length_singleton]; omega)
    · simp only [Function.update_of_ne hsame]
      exact hunread

theorem Stored.writeOutput
    (h : Stored o files s)
    (hcopied : Copied o files n s)
    (hdistinct : o.output .file1 ≠ o.output .file2)
    {out : Output}
    (hsink : o.sink out = .output out) :
    Stored o files (writeOutput o true out s).2 := by
  have hinjective : ∀ other, o.output other = o.output out → other = out := by
    intro other hsame
    cases other <;> cases out
    · rfl
    · exact absurd hsame hdistinct
    · exact absurd hsame.symm hdistinct
    · rfl
  rw [writeOutput_of_output hsink]
  intro other
  by_cases hother : other = out
  · subst hother
    simp only [State.hasWritten, Function.update_self]
    rw [hcopied.position, h other]
    exact FileContents.writeAt_append _ _ _
  · have hfile : o.output other ≠ o.output out := fun hsame => hother (hinjective other hsame)
    simp only [State.hasWritten, Function.update_of_ne hfile, Function.update_of_ne hother]
    exact h other

end Filtering

section Exits

variable {o : Opens} {files : Nat → List UInt8} {s t : State}

/-- The outputs are two files. -/
def Distinct
    (o : Opens) :
    Prop :=
  o.output .file1 ≠ o.output .file2

/-- The loop has written a prefix of the input and read behind it. -/
def Running
    (o : Opens)
    (files : Nat → List UInt8)
    (s : State) :
    Prop :=
  ∃ n, n ≤ (files o.input).length ∧ Copied o files n s ∧
    LastRead (files o.input) n s ∧ (Distinct o → Stored o files s)

/-- The program has written all of the input, or a call has failed. -/
def Exited
    (o : Opens)
    (files : Nat → List UInt8)
    (code : Int)
    (s : State) :
    Prop :=
  ∃ n, n ≤ (files o.input).length ∧ Copied o files n s ∧
    ((code = 0 ∧ n = (files o.input).length ∧ -1 ∉ s.results) ∨
      (code = 3 ∧ -1 ∈ s.results)) ∧
    (Distinct o → Stored o files s)

/-- Behind the end of the input the loop is left. -/
theorem iteration_of_ended
    (hresult : s.inputFileRead = 0)
    (answer : Answer) :
    iteration o answer s = .returned 0 s := by
  rw [iteration, if_neg (by rw [hresult]; decide), if_neg (by rw [hresult]; decide)]

theorem iteration_of_failed
    (hresult : s.inputFileRead = -1)
    (answer : Answer) :
    iteration o answer s = .returned 3 s := by
  rw [iteration, if_neg (by rw [hresult]; decide), if_pos hresult]

/-- A byte that has been read is written and the next one is read, unless the write
fails. -/
theorem iteration_of_byte
    (hkept : o.Kept)
    (hresult : s.inputFileRead = 1)
    (answer : Answer) :
    iteration o answer s = .returned 3 { s with results := s.results ++ [-1] } ∨
      ∃ s', iteration o answer s = .running (readInput o answer.read s') ∧
        o.sink (outputFor s.inputByte) = .output (outputFor s.inputByte) ∧
        s' = (writeOutput o true (outputFor s.inputByte) s).2 ∧
        s'.inputPosition = s.inputPosition ∧ s'.results = s.results ++ [1] := by
  rw [iteration, if_pos (by rw [hresult]; decide)]
  by_cases hfail :
      (o.sink (outputFor s.inputByte)).writable = false ∨ answer.write = false
  · left
    rw [writeOutput_of_failed hfail]
    exact if_pos (by decide)
  · right
    rw [not_or, Bool.not_eq_false, Bool.not_eq_false] at hfail
    have hsink := hkept.output _ hfail.1
    rw [hfail.2, writeOutput_of_output hsink]
    exact ⟨_, if_neg (by decide), hsink, rfl, rfl, rfl⟩

/-- An iteration writes the byte that has been read and reads the next one, or it ends
the program. -/
theorem Running.iteration
    (h : Running o files s)
    (hkept : o.Kept)
    (answer : Answer) :
    (iteration o answer s).Holds (Running o files) (Exited o files) := by
  obtain ⟨n, hle, hcopied, hlast, hstored⟩ := h
  cases hlast with
  | byte result position next unfailed =>
      rcases iteration_of_byte hkept result answer with
        hfail | ⟨s', hnext, hsink, hs', hposition, hresults⟩
      · rw [hfail]
        refine ⟨n, hle, ⟨hcopied.written, hcopied.position, hcopied.unread⟩,
          Or.inr ⟨rfl, ?_⟩, hstored⟩
        exact List.mem_append_right _ (List.mem_singleton.mpr rfl)
      · rw [hnext]
        have hmore : Copied o files (n + 1) s' := by
          rw [hs']
          exact hcopied.writeOutput next rfl hsink
        have hlt := (List.getElem?_eq_some_iff.mp next).1
        refine ⟨n + 1, hlt, hmore.readInput _, hmore.lastRead hkept hlt ?_ ?_ _,
          fun hdistinct => ?_⟩
        · rw [hposition, position]
        · rw [hresults]
          simpa using unfailed
        · rw [hs']
          exact ((hstored hdistinct).writeOutput hcopied hdistinct hsink).readInput _
  | ended result all unfailed =>
      rw [iteration_of_ended result]
      exact ⟨n, hle, hcopied, Or.inl ⟨rfl, all, unfailed⟩, hstored⟩
  | failed result failed =>
      rw [iteration_of_failed result]
      exact ⟨n, hle, hcopied, Or.inr ⟨rfl, failed⟩, hstored⟩

theorem running_start
    (hkept : o.Kept)
    (files : Nat → List UInt8)
    (descriptions : Nat → Inherited)
    (inputByte : UInt8)
    (inputFileRead : Int)
    (first : Bool) :
    Running o files
      (readInput o first (opened files descriptions inputByte inputFileRead)) := by
  have hcopied : Copied o files 0 (opened files descriptions inputByte inputFileRead) := by
    refine ⟨fun out => ?_, fun out => rfl, fun i _ => rfl⟩
    cases out <;> rfl
  have hstored : Stored o files (opened files descriptions inputByte inputFileRead) :=
    fun out => rfl
  exact ⟨0, Nat.zero_le _, hcopied.readInput first,
    hcopied.lastRead hkept (Nat.zero_le _) rfl List.not_mem_nil first,
    fun _ => hstored.readInput first⟩

/-- None of the variables for the descriptors holds `-1`. -/
def Descriptors.Accepted
    (fds : Descriptors) :
    Prop :=
  toInt8 fds.inputFile ≠ -1 ∧ ∀ out, toInt8 (fds.outputFile out) ≠ -1

/-- The program goes past its checks, and no number leads elsewhere. -/
def Valid
    (o : Opens) :
    Prop :=
  o.Accepted ∧ o.Kept

theorem main_of_accepted
    (hvalid : o.Accepted)
    (first : Bool)
    (answers : Nat → Answer)
    (s : State)
    (k : Nat) :
    main o first answers s k =
      LoopState.after (iteration o) answers (readInput o first s) k := by
  rw [main, if_neg hvalid.1, if_neg]
  rintro (h | h)
  · exact hvalid.2 .file1 h
  · exact hvalid.2 .file2 h

section Results

variable {descriptions : Nat → Inherited} {inputByte : UInt8} {inputFileRead : Int}
  {first : Bool}
variable {answers : Nat → Answer} {k : Nat} {code : Int}

theorem exited_of_returned
    (hvalid : Valid o)
    (hexit : main o first answers (opened files descriptions inputByte inputFileRead) k =
      .returned code s) :
    Exited o files code s := by
  rw [main_of_accepted hvalid.1] at hexit
  have hk := LoopState.holds_after (Q := Exited o files) (k := k)
    (running_start hvalid.2 files descriptions inputByte inputFileRead first)
    (fun j s' _ hs' => hs'.iteration hvalid.2 (answers j))
  rw [hexit] at hk
  exact hk

/-- What a read does to the position in the input and to `input_file_read`. -/
theorem readInput_progress
    (hkept : o.Kept)
    (succeeds : Bool)
    (s : State) :
    ((readInput o succeeds s).inputPosition = s.inputPosition + 1 ∧
        (readInput o succeeds s).inputFileRead = 1) ∨
      ((readInput o succeeds s).inputPosition = s.inputPosition ∧
        (readInput o succeeds s).inputFileRead ≤ 0) := by
  by_cases hfail : o.source.readable = false ∨ succeeds = false
  · rw [readInput_of_failed hfail]
    exact Or.inr ⟨rfl, (by decide : toInt8 (-1) ≤ 0)⟩
  · rw [not_or, Bool.not_eq_false, Bool.not_eq_false] at hfail
    rw [hfail.2, readInput_of_input (hkept.input hfail.1)]
    split
    · exact Or.inr ⟨rfl, (by decide : toInt8 0 ≤ 0)⟩
    · exact Or.inl ⟨rfl, rfl⟩

/-- The bytes that are still to be read, and whether one has been read. -/
def toRead
    (o : Opens)
    (files : Nat → List UInt8)
    (s : State) :
    Nat :=
  2 * ((files o.input).length - s.inputPosition) + s.inputFileRead.toNat

/-- Every iteration comes nearer to the end of the input. -/
theorem Running.toRead_lt
    (h : Running o files s)
    (hkept : o.Kept)
    {answer : Answer}
    (hnext : ReadFilterWrite.iteration o answer s = .running t) :
    toRead o files t < toRead o files s := by
  have hrunning : Running o files t := by
    have hall := h.iteration hkept answer
    rw [hnext] at hall
    exact hall
  obtain ⟨n, -, -, hlast, -⟩ := h
  obtain ⟨m, -, -, hlast', -⟩ := hrunning
  cases hlast with
  | byte result position next unfailed =>
      rcases iteration_of_byte hkept result answer with
        hfail | ⟨s', hrest, -, -, hposition, -⟩
      · rw [hfail] at hnext
        cases hnext
      · rw [hrest] at hnext
        cases hnext
        have hlt := (List.getElem?_eq_some_iff.mp next).1
        rw [toRead, toRead, result, position]
        rcases readInput_progress hkept answer.read s' with ⟨hmoved, hone⟩ | ⟨hsame, hzero⟩
        · rw [hmoved, hone, hposition, position]
          cases hlast' with
          | byte result' position' next' unfailed' =>
              have hlt' := (List.getElem?_eq_some_iff.mp next').1
              rw [hmoved, hposition, position] at position'
              simp only [Int.toNat_one]
              omega
          | ended result' _ _ =>
              rw [hone] at result'
              cases result'
          | failed result' _ =>
              rw [hone] at result'
              cases result'
        · rw [hsame, hposition, position]
          simp only [Int.toNat_one]
          omega
  | ended result all unfailed =>
      rw [iteration_of_ended result] at hnext
      cases hnext
  | failed result failed =>
      rw [iteration_of_failed result] at hnext
      cases hnext

/-- No answer leaves the loop where it is. -/
def Idle
    (_ : Answer) :
    Prop :=
  False

/-- The program exits, whatever the calls do. -/
theorem exists_exit
    (hkept : o.Kept)
    (files : Nat → List UInt8)
    (descriptions : Nat → Inherited)
    (inputByte : UInt8)
    (inputFileRead : Int)
    (first : Bool)
    (answers : Nat → Answer) :
    ∃ k code s,
      main o first answers (opened files descriptions inputByte inputFileRead) k =
        .returned code s := by
  by_cases hinput : toInt8 o.inputFile = -1
  · exact ⟨0, 1, _, if_pos hinput⟩
  · by_cases houtput : toInt8 (o.outputFile .file1) = -1 ∨
        toInt8 (o.outputFile .file2) = -1
    · refine ⟨0, 2, opened files descriptions inputByte inputFileRead, ?_⟩
      rw [main, if_neg hinput, if_pos houtput]
    · simp only [main, if_neg hinput, if_neg houtput]
      have hidle : {k | Idle (answers k)}.Finite := by
        simp [Idle]
      refine LoopState.exists_returned (toRead o files) hidle ?_
      intro k s s' hk hnext
      have hrunning := LoopState.holds_after (Q := Exited o files) (k := k)
        (running_start hkept files descriptions inputByte inputFileRead first)
        (fun j s' _ hs' => hs'.iteration hkept (answers j))
      rw [hk] at hrunning
      exact Or.inr (Running.toRead_lt hrunning hkept hnext)

/-- The exit code is one or two when a call of `open` has failed. -/
theorem accepted_of_returned_zero
    (hexit : main o first answers s k = .returned 0 t) :
    o.Accepted := by
  rw [main] at hexit
  split_ifs at hexit with hinput houtput
  · cases hexit
  · cases hexit
  · rw [not_or] at houtput
    refine ⟨hinput, fun out => ?_⟩
    cases out with
    | file1 =>
        exact houtput.1
    | file2 =>
        exact houtput.2

/-- A program that exits with zero has read, so its input can be read. -/
theorem readable_of_returned_zero
    (hexit : main o first answers s k = .returned 0 t) :
    o.source.readable = true := by
  have haccepted := accepted_of_returned_zero hexit
  by_contra hread
  rw [Bool.not_eq_true] at hread
  have hfailed (k : Nat) : main o first answers s k = .running (s.notRead (-1)) ∨
      main o first answers s k = .returned 3 (s.notRead (-1)) := by
    rw [main_of_accepted haccepted, readInput_of_failed (Or.inl hread)]
    induction k with
    | zero =>
        exact Or.inl rfl
    | succ k ih =>
        right
        rw [LoopState.after]
        rcases ih with h | h
        · rw [h]
          exact iteration_of_failed rfl _
        · rw [h]
  rcases hfailed k with h | h
  · rw [h] at hexit
    cases hexit
  · rw [h] at hexit
    cases hexit

end Results

/-- Numbers below 256 do not lead elsewhere: they are kept or become negative. -/
theorem kept_of_lt
    {fds : Descriptors}
    (hinput : -1 ≤ fds.inputFile ∧ fds.inputFile < 256)
    (houtput : ∀ out, -1 ≤ fds.outputFile out ∧ fds.outputFile out < 256) :
    fds.Kept := by
  have hsmall (fd : Int) (hfd : -1 ≤ fd ∧ fd < 256) :
      toInt8 fd = fd ∧ 0 ≤ fd ∨ toInt8 fd < 0 := by
    rw [toInt8, Int.bmod_def]
    split_ifs <;> omega
  constructor
  · intro hread
    rw [Descriptors.source] at hread ⊢
    rcases hsmall _ hinput with ⟨heq, hle⟩ | hlt
    · rw [heq, Descriptors.referent, if_neg (by omega), if_pos rfl]
    · rw [Descriptors.referent, if_pos hlt] at hread
      cases hread
  · intro out hwrite
    rw [Descriptors.sink] at hwrite ⊢
    rcases hsmall _ (houtput out) with ⟨heq, hle⟩ | hlt
    · have hother : fds.outputFile out ≠ fds.inputFile := by
        by_cases hopened : fds.inputFile = -1
        · omega
        · exact fds.inputFile_free hopened out
      rw [heq, Descriptors.referent, if_neg (by omega), if_neg hother]
      cases out with
      | file1 =>
          exact if_pos rfl
      | file2 =>
          have hfirst : fds.outputFile .file2 ≠ fds.outputFile .file1 := by
            by_cases hopened : fds.outputFile .file1 = -1
            · omega
            · exact fds.outputFile_free hopened
          rw [if_neg hfirst, if_pos rfl]
    · rw [Descriptors.referent, if_pos hlt] at hwrite
      cases hwrite

/-- The files of a run. -/
def Descriptors.opens
    (fds : Descriptors) :
    Opens where
  toDescriptors := fds
  input := 0
  output
    | .file1 => 1
    | .file2 => 2

/-- The program as a shell starts it. -/
def shellDescriptors : Descriptors where
  inputFile := 3
  outputFile
    | .file1 => 4
    | .file2 => 5
  inherited fd := if 0 ≤ fd ∧ fd ≤ 2 then some fd.toNat else none
  inputFile_free _ out := by
    cases out <;> decide
  outputFile_free _ := by
    decide

theorem kept_shellDescriptors :
    shellDescriptors.Kept :=
  kept_of_lt (by decide) (fun out => by cases out <;> decide)

/-- An input and a first output file with former contents. -/
def twoFiles
    (input output1 : List UInt8) :
    Nat → List UInt8
  | 0 => input
  | 1 => output1
  | _ => []

/-- Nothing can be read from what is inherited, and what is written to it goes away. -/
def emptyStreams : Nat → Inherited :=
  fun _ => .stream []

/-- The output files hold exactly the two parts of the input. -/
def Exact
    (o : Opens)
    (files : Nat → List UInt8)
    (s : State) :
    Prop :=
  s.files (o.output .file1) = (files o.input).filter isDigit ∧
  s.files (o.output .file2) = (files o.input).filter fun b => !isDigit b

/-- Neither of the output files was longer before than its part of the input. -/
def Covered
    (o : Opens)
    (files : Nat → List UInt8) :
    Prop :=
  (files (o.output .file1)).length ≤ ((files o.input).filter isDigit).length ∧
  (files (o.output .file2)).length ≤ ((files o.input).filter fun b => !isDigit b).length

theorem exact_iff_of_kept
    {descriptions : Nat → Inherited}
    {inputByte : UInt8}
    {inputFileRead : Int}
    {first : Bool}
    {answers : Nat → Answer}
    {k : Nat}
    (hkept : o.Kept)
    (hdistinct : Distinct o)
    (hexit : main o first answers (opened files descriptions inputByte inputFileRead) k =
      .returned 0 s) :
    Exact o files s ↔ Covered o files := by
  obtain ⟨n, -, hcopied, hcode, hstored⟩ :=
    exited_of_returned ⟨accepted_of_returned_zero hexit, hkept⟩ hexit
  have hall : n = (files o.input).length := by
    rcases hcode with ⟨-, hn, -⟩ | ⟨hthree, -⟩
    · exact hn
    · cases hthree
  have hwritten : ∀ out, s.written out = bytesFor out (files o.input) := by
    intro out
    rw [hcopied.written, hall, List.take_length]
  have hexact : ∀ out, s.files (o.output out) = bytesFor out (files o.input) ↔
      (files (o.output out)).length ≤ (bytesFor out (files o.input)).length := by
    intro out
    rw [hstored hdistinct out, hwritten]
    exact FileContents.append_drop_eq_iff
  exact and_congr (hexact .file1) (hexact .file2)

section Elsewhere

/-! Where a number leads elsewhere, a run with code zero leaves an output file empty that
should have got a byte. -/

/-- All calls succeed. -/
def succeeding : Nat → Answer :=
  fun _ => { write := true, read := true }

/-- The three files of a run whose input is one byte and whose outputs are empty. -/
def oneByte
    (b : UInt8) :
    Nat → List UInt8
  | 0 => [b]
  | _ => []

variable {fds : Descriptors} {out : Output} {b : UInt8}

theorem distinct_opens :
    Distinct fds.opens := by
  rw [Distinct]
  exact (by decide : 1 ≠ 2)

theorem covered_oneByte :
    Covered fds.opens (oneByte b) :=
  ⟨Nat.zero_le _, Nat.zero_le _⟩

/-- One of the files should have got the byte. -/
theorem not_exact_oneByte
    (hempty : s.files (fds.opens.output (outputFor b)) = []) :
    ¬Exact fds.opens (oneByte b) s := by
  intro hexact
  rw [outputFor] at hempty
  by_cases hdigit : isDigit b = true
  · rw [if_pos hdigit] at hempty
    have hfile := hexact.1
    rw [hempty] at hfile
    simp [oneByte, Descriptors.opens, hdigit] at hfile
  · rw [if_neg hdigit] at hempty
    have hfile := hexact.2
    rw [hempty] at hfile
    simp [oneByte, Descriptors.opens, hdigit] at hfile

/-- The input is taken from somewhere else, where there is nothing. -/
theorem exists_read_elsewhere
    (haccepted : fds.Accepted)
    {d : Nat}
    (hsource : fds.source = .inherited d)
    (b : UInt8) :
    ∃ s, main fds.opens true succeeding (opened (oneByte b) emptyStreams 0 0) 1 =
        .returned 0 s ∧
      ∀ out, s.files (fds.opens.output out) = [] := by
  have hread : readInput fds.opens true (opened (oneByte b) emptyStreams 0 0) =
      (opened (oneByte b) emptyStreams 0 0).notRead 0 := by
    unfold readInput
    rw [show fds.opens.source = .inherited d from hsource]
    rfl
  refine ⟨(opened (oneByte b) emptyStreams 0 0).notRead 0, ?_, fun out => ?_⟩
  · rw [main_of_accepted haccepted, hread, LoopState.after, LoopState.after]
    exact iteration_of_ended rfl _
  · cases out <;> rfl

/-- A write that leads elsewhere. -/
theorem exists_written_elsewhere
    (hwritable : (fds.sink out).writable = true)
    (helsewhere : fds.sink out ≠ .output out)
    (s : State)
    (hstreams : s.descriptions = emptyStreams) :
    ∃ t, writeOutput fds.opens true out s = (1, t) ∧
      t.files (fds.opens.output out) = s.files (fds.opens.output out) ∧
      t.files 0 = s.files 0 ∧
      t.inputPosition = s.inputPosition := by
  cases hsink : fds.sink out with
  | output file =>
      have hfile : fds.opens.output out ≠ fds.opens.output file := by
        rw [hsink] at helsewhere
        cases out <;> cases file
        · exact absurd rfl helsewhere
        · exact (by decide : 1 ≠ 2)
        · exact (by decide : 2 ≠ 1)
        · exact absurd rfl helsewhere
      have hinput : 0 ≠ fds.opens.output file := by
        cases file
        · exact (by decide : 0 ≠ 1)
        · exact (by decide : 0 ≠ 2)
      have hwrite := writeOutput_of_output (o := fds.opens) hsink s
      refine ⟨_, hwrite, ?_, ?_, rfl⟩
      · exact Function.update_of_ne hfile _ _
      · exact Function.update_of_ne hinput _ _
  | inherited d =>
      refine ⟨{ s.hasWritten out with
        descriptions := Function.update s.descriptions d (.stream []) }, ?_, rfl, rfl, rfl⟩
      unfold writeOutput
      rw [show fds.opens.sink out = .inherited d from hsink, hstreams]
      rfl
  | input =>
      rw [hsink] at hwritable
      cases hwritable
  | nothing =>
      rw [hsink] at hwritable
      cases hwritable

/-- The byte of the input is written somewhere else. -/
theorem exists_copied_elsewhere
    (haccepted : fds.Accepted)
    (hsource : fds.source = .input)
    (hwritable : (fds.sink (outputFor b)).writable = true)
    (helsewhere : fds.sink (outputFor b) ≠ .output (outputFor b)) :
    ∃ s, main fds.opens true succeeding (opened (oneByte b) emptyStreams 0 0) 2 =
        .returned 0 s ∧
      s.files (fds.opens.output (outputFor b)) = [] := by
  have hinput : fds.opens.source = .input := hsource
  obtain ⟨s₁, hread, hbyte, hresult, hone, hfiles, hstreams⟩ :
      ∃ s₁, readInput fds.opens true (opened (oneByte b) emptyStreams 0 0) = s₁ ∧
        s₁.inputByte = b ∧ s₁.inputFileRead = 1 ∧ s₁.inputPosition = 1 ∧
        s₁.files = oneByte b ∧ s₁.descriptions = emptyStreams := by
    rw [readInput_of_input hinput]
    exact ⟨_, rfl, rfl, rfl, rfl, rfl, rfl⟩
  obtain ⟨t, hwrite, hempty, hunread, hposition⟩ :=
    exists_written_elsewhere hwritable helsewhere s₁ hstreams
  have hend : readInput fds.opens true t = t.notRead 0 := by
    have hnone : (t.files fds.opens.input)[t.inputPosition]? = none := by
      rw [show t.files fds.opens.input = s₁.files 0 from hunread, hposition, hone, hfiles]
      rfl
    rw [readInput_of_input hinput, hnone]
  have hcopied : iteration fds.opens (succeeding 0) s₁ = .running (t.notRead 0) := by
    rw [iteration, if_pos (by rw [hresult]; decide), hbyte]
    rw [show writeOutput fds.opens (succeeding 0).write (outputFor b) s₁ = (1, t) from hwrite]
    rw [← hend]
    exact if_neg (by decide)
  refine ⟨t.notRead 0, ?_, ?_⟩
  · rw [main_of_accepted haccepted, hread, LoopState.after, LoopState.after, LoopState.after]
    dsimp only
    rw [hcopied]
    exact iteration_of_ended rfl _
  · rw [show (t.notRead 0).files = t.files from rfl, hempty, hfiles]
    cases outputFor b <;> rfl

end Elsewhere

/-- Behind every exit with code zero the output files hold exactly the two parts of the
input if and only if neither of them was longer before. This is so if and only if no
number that `int8_t` makes of a descriptor leads elsewhere, or the program cannot read at
all. -/
theorem outputs_exact_iff
    (fds : Descriptors) :
    (∀ o : Opens, o.toDescriptors = fds → Distinct o →
      ∀ files descriptions inputByte inputFileRead first answers k s,
        main o first answers (opened files descriptions inputByte inputFileRead) k =
          .returned 0 s →
        (Exact o files s ↔ Covered o files)) ↔
    (fds.Accepted → fds.source.readable = true → fds.Kept) := by
  constructor
  · intro h haccepted hread
    have hexact := h fds.opens rfl distinct_opens
    have hsource : fds.source = .input := by
      cases hsource : fds.source with
      | input =>
          rfl
      | inherited d =>
          obtain ⟨s, hexit, hempty⟩ := exists_read_elsewhere haccepted hsource 48
          exact absurd ((hexact _ _ _ _ _ _ _ s hexit).mpr covered_oneByte)
            (not_exact_oneByte (hempty _))
      | output out =>
          rw [hsource] at hread
          cases hread
      | nothing =>
          rw [hsource] at hread
          cases hread
    refine ⟨fun _ => hsource, fun out hwritable => ?_⟩
    by_contra helsewhere
    obtain ⟨b, rfl⟩ : ∃ b, outputFor b = out := by
      cases out with
      | file1 =>
          exact ⟨48, rfl⟩
      | file2 =>
          exact ⟨97, rfl⟩
    obtain ⟨s, hexit, hempty⟩ :=
      exists_copied_elsewhere haccepted hsource hwritable helsewhere
    exact absurd ((hexact _ _ _ _ _ _ _ s hexit).mpr covered_oneByte)
      (not_exact_oneByte hempty)
  · rintro h o rfl hdistinct files descriptions inputByte inputFileRead first answers k s hexit
    exact exact_iff_of_kept
      (h (accepted_of_returned_zero hexit) (readable_of_returned_zero hexit)) hdistinct hexit

theorem outputs_exact_iff_freshFiles :
    ∃ s, main shellDescriptors.opens true succeeding
        (opened (twoFiles [97, 49] []) emptyStreams 0 0) 3 = .returned 0 s ∧
      s.files 1 = [49] ∧ s.files 2 = [97] := by
  refine ⟨_, rfl, ?_⟩
  exact ((outputs_exact_iff shellDescriptors).mpr (fun _ _ => kept_shellDescriptors)
    shellDescriptors.opens rfl distinct_opens (twoFiles [97, 49] []) emptyStreams 0 0 true
    succeeding 3 _ rfl).mpr ⟨by decide, by decide⟩

/-- A process that has 253 more descriptors. -/
def manyDescriptors : Descriptors where
  inputFile := 256
  outputFile
    | .file1 => 257
    | .file2 => 258
  inherited fd := if 0 ≤ fd ∧ fd ≤ 255 then some fd.toNat else none
  inputFile_free _ out := by
    cases out <;> decide
  outputFile_free _ := by
    decide

/-- The first output file has held a character, and the input has no digit, so nothing is
written over it. With many descriptors the program reads the empty standard input instead
of its file, and the output files stay empty. -/
theorem not_outputs_exact_longerFile :
    (∃ s, main shellDescriptors.opens true succeeding
        (opened (twoFiles [97] [120]) emptyStreams 0 0) 2 = .returned 0 s ∧
      s.files 1 = [120] ∧ s.files 1 ≠ ([97] : List UInt8).filter isDigit) ∧
    ∃ s, main manyDescriptors.opens true succeeding
        (opened (twoFiles [49] []) emptyStreams 0 0) 1 = .returned 0 s ∧
      s.files 1 = [] ∧ s.files 1 ≠ ([49] : List UInt8).filter isDigit := by
  refine ⟨⟨_, rfl, ?_⟩, ⟨_, rfl, ?_⟩⟩
  · decide
  · decide

end Exits

end ReadFilterWrite
end Files
end OsSeminars
