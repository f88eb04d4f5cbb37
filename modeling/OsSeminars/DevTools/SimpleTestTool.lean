import OsSeminars.Foundation.Shell

/-!
# 02-dev-tools/simple-test-tool: the recipe `run_checks`

The recipe is one shell command. For every input file of the directory `tests` it compares
the output of the program with the expected one. A variable remembers whether a test has
failed, but nothing reads it: the status of the recipe is that of the last command in the
loop.

What `echo` prints can always be written. The words of the loop are the names of the input
files, as far as they have no blanks; the characters of a name are single bytes, and
wildcard characters are left as they are. What `diff` prints is a parameter.
-/

namespace OsSeminars
namespace DevTools
namespace SimpleTestTool

open Foundation
open Shell (Cmd Triple exec substituted)

/-- `TEST_DIR` -/
def testDir : String :=
  "tests"

/-- `TEST_INPUT` -/
def testInput : String :=
  "input"

/-- `TEST_OUTPUT` -/
def testOutput : String :=
  "output"

/-- `TEST_EXPECTED` -/
def testExpected : String :=
  "expected"

/-- The files of the directory `tests` with their names and contents. -/
abbrev Directory : Type :=
  List (String × String)

/-- The contents of a file, by its path. -/
def contents
    (dir : Directory)
    (path : String) :
    Option String :=
  (dir.map fun entry => (testDir ++ "/" ++ entry.1, entry.2)).lookup path

/-- What `ls $(TEST_DIR)` prints; hidden files are left out. -/
def ls
    (dir : Directory) :
    List Char :=
  ((dir.map Prod.fst).filter fun name => name.toList.head? ≠ some '.').flatMap
    fun name => name.toList ++ ['\n']

/-- The line contains the text `input`. -/
def isInput
    (line : List Char) :
    Bool :=
  line.tails.any fun rest => testInput.toList.isPrefixOf rest

/-- The lines that `grep $(TEST_INPUT)` lets through. -/
def grepInput
    (text : List Char) :
    List (List Char) :=
  (text.splitOn '\n').filter isInput

/-- The words into which the shell splits a line. -/
def wordsOf
    (line : List Char) :
    List String :=
  ((line.splitOnP fun c => c = ' ' || c = '\t' || c = '\n').filter (· ≠ [])).map
    String.ofList

/-- The words of the loop. -/
def words
    (dir : Directory) :
    List String :=
  (grepInput (ls dir)).flatMap wordsOf

/-- The variables of the shell, and what has been printed. -/
structure Vars where
  failed : String
  file : String
  testNo : String
  expected : String
  actual : String
  input : String
  diffResult : String
  out : List String

/-- An assignment, which has the status zero. -/
def assign
    (set : Vars → Vars) :
    Cmd Vars :=
  .simple fun s _ => (set s, 0)

def echo
    (text : Vars → String) :
    Cmd Vars :=
  .simple fun s _ => ({ s with out := s.out ++ [text s] }, 0)

/-- What `cat` prints of a file; of a missing one it prints nothing. -/
def cat
    (dir : Directory)
    (path : String) :
    String :=
  (contents dir path).getD ""

/-- What `diff` prints, and its status. -/
def diff
    (printed : String → String → String)
    (dir : Directory)
    (path path' : String) :
    String × Nat :=
  match contents dir path, contents dir path' with
  | some text, some text' =>
      if text = text' then ("", 0) else (printed text text', 1)
  | _, _ => ("", 2)

/-- `cut -c 6-` -/
def cutFrom6
    (text : String) :
    String :=
  String.ofList (text.toList.drop 5)

/-- `"$(TEST_DIR)/$(TEST_OUTPUT)$$test_no"` -/
def outputPath
    (testNo : String) :
    String :=
  testDir ++ "/" ++ testOutput ++ testNo

/-- `"$(TEST_DIR)/$(TEST_EXPECTED)$$test_no"` -/
def expectedPath
    (testNo : String) :
    String :=
  testDir ++ "/" ++ testExpected ++ testNo

/-- ``diff_result=`diff $$actual $$expected` ``, whose status is that of `diff`. -/
def diffCommand
    (printed : String → String → String)
    (dir : Directory) :
    Cmd Vars :=
  .simple fun s _ =>
    ({ s with diffResult := substituted (diff printed dir s.actual s.expected).1 },
      (diff printed dir s.actual s.expected).2)

/-- `if [ $$? -eq 0 ]; then .. else .. fi` -/
def verdict : Cmd Vars :=
  .ifThenElse (.simple fun s status => (s, if status = 0 then 0 else 1))
    (echo fun _ => "PASS\\n")
    (.block (echo fun s => "\\n" ++ s.diffResult ++ "\\n") [
      echo fun _ => "FAIL\\n",
      assign fun s => { s with failed := "1" }])

/-- The body of the loop. -/
def check
    (printed : String → String → String)
    (dir : Directory) :
    Cmd Vars :=
  .block (assign fun s => { s with testNo := cutFrom6 s.file }) [
    assign fun s => { s with expected := expectedPath s.testNo },
    assign fun s => { s with actual := outputPath s.testNo },
    assign fun s => { s with input := testDir ++ "/" ++ s.file },
    echo fun s => "TEST " ++ s.testNo ++ ":\\n",
    echo fun s => "  input: " ++ substituted (cat dir s.input),
    echo fun s => "  output: " ++ substituted (cat dir s.actual),
    echo fun s => "  expected: " ++ substituted (cat dir s.actual),
    diffCommand printed dir,
    verdict]

/-- The recipe `run_checks`. -/
def runChecks
    (printed : String → String → String)
    (dir : Directory) :
    Cmd Vars :=
  .seq (assign fun s => { s with failed := "0" })
    (.forIn (fun _ => words dir) (fun word s => { s with file := word })
      (check printed dir))

/-- The names of the input files. -/
def inputs
    (dir : Directory) :
    List String :=
  (dir.map Prod.fst).filter fun name =>
    name.toList.head? ≠ some '.' ∧ isInput name.toList

/-- The output for an input file is not what is expected, or one of the two files is
missing. -/
def Differs
    (dir : Directory)
    (file : String) :
    Prop :=
  ¬∃ text, contents dir (outputPath (cutFrom6 file)) = some text ∧
    contents dir (expectedPath (cutFrom6 file)) = some text

/-- The recipe fails if and only if a test fails. -/
def ReportsFailures
    (printed : String → String → String)
    (dir : Directory)
    (s : Vars)
    (status : Nat) :
    Prop :=
  (exec (runChecks printed dir) (s, status)).2 ≠ 0 ↔ ∃ file ∈ inputs dir, Differs dir file

section Recipe

variable {printed : String → String → String} {dir : Directory}

/-- `diff` has the status zero only for two files with one text. -/
theorem diff_status_eq_zero_iff
    {path path' : String} :
    (diff printed dir path path').2 = 0 ↔
      ∃ text, contents dir path = some text ∧ contents dir path' = some text := by
  rw [diff]
  split
  · next text text' htext htext' =>
      rw [htext, htext']
      split_ifs with hsame
      · exact iff_of_true rfl ⟨text, rfl, congrArg some hsame.symm⟩
      · refine iff_of_false not_false ?_
        rintro ⟨_, ⟨⟩, hother⟩
        exact hsame (Option.some.inj hother).symm
  · next hmissing =>
      refine iff_of_false (Nat.succ_ne_zero 1) ?_
      rintro ⟨text, htext, htext'⟩
      exact hmissing text text htext htext'

/-- The verdict has the status zero, whatever it is. It keeps a failure, and it notes one
if the status in front of it is not zero. -/
theorem triple_verdict
    (F D : Prop) :
    Triple (fun s status => (status = 0 ↔ ¬D) ∧ (s.failed = "1" ↔ F)) verdict
      (fun s status => status = 0 ∧ (s.failed = "1" ↔ F ∨ D)) := by
  refine Triple.ifThenElse
    (Q := fun s status => (status = 0 ↔ ¬D) ∧ (s.failed = "1" ↔ F)) ?_ ?_ ?_
  · refine Shell.triple_simple fun s status h => ?_
    dsimp only
    split_ifs with hzero
    · exact ⟨iff_of_true rfl (h.1.mp hzero), h.2⟩
    · exact ⟨iff_of_false not_false fun hpass => hzero (h.1.mpr hpass), h.2⟩
  · refine Shell.triple_simple fun s status h => ⟨rfl, ?_⟩
    obtain ⟨⟨hstatus, hfailed⟩, hzero⟩ := h
    rw [or_iff_left (hstatus.mp hzero)]
    exact hfailed
  · intro p h
    obtain ⟨⟨hstatus, -⟩, hnonzero⟩ := h
    exact ⟨rfl, iff_of_true rfl (Or.inr (not_not.mp (mt hstatus.mpr hnonzero)))⟩

/-- One round of the loop. -/
theorem triple_check
    (printed : String → String → String)
    (dir : Directory)
    (F : Prop)
    (file : String) :
    Triple (fun s _ => s.file = file ∧ (s.failed = "1" ↔ F)) (check printed dir)
      (fun s status => status = 0 ∧ (s.failed = "1" ↔ F ∨ Differs dir file)) := by
  rintro p ⟨rfl, hfailed⟩
  simp only [check, Cmd.block, assign, echo, diffCommand, Shell.exec_seq_simple]
  refine triple_verdict F (Differs dir p.1.file) _ ⟨?_, hfailed⟩
  rw [Differs, not_not]
  exact diff_status_eq_zero_iff

/-- What is known behind the rounds for some files: the status is zero, and the variable
remembers whether a test has failed. -/
def Remembers
    (dir : Directory)
    (done : List String)
    (s : Vars)
    (status : Nat) :
    Prop :=
  status = 0 ∧ (s.failed = "1" ↔ ∃ file ∈ done, Differs dir file)

theorem triple_runChecks :
    Triple (fun _ _ => True) (runChecks printed dir) (Remembers dir (words dir)) := by
  have hround (done : List String) (word : String) :
      Triple (fun s status => ∃ s₀, Remembers dir done s₀ status ∧ s = { s₀ with file := word })
        (check printed dir) (Remembers dir (done ++ [word])) := by
    rintro p ⟨s₀, ⟨-, hfailed⟩, hs⟩
    have hcheck := triple_check printed dir (∃ file ∈ done, Differs dir file) word p
      (by rw [hs]; exact ⟨rfl, hfailed⟩)
    refine ⟨hcheck.1, hcheck.2.trans ?_⟩
    simp [or_and_right, exists_or]
  refine Triple.seq (Q := fun s status => words dir = words dir ∧
    Remembers dir [] s status ∧ Remembers dir [] s 0) ?_
    (Triple.forIn (Remembers dir) hround (words dir))
  refine Shell.triple_simple fun s status _ => ?_
  have hnone : Remembers dir [] { s with failed := "0" } 0 := by
    refine ⟨rfl, iff_of_false (by decide : "0" ≠ "1") ?_⟩
    rintro ⟨file, hfile, -⟩
    cases hfile
  exact ⟨rfl, hnone, hnone⟩

/-- The recipe reports the failures if and only if there are none. -/
theorem reportsFailures_iff
    (printed : String → String → String)
    (dir : Directory)
    (s : Vars)
    (status : Nat) :
    ReportsFailures printed dir s status ↔ ∀ file ∈ inputs dir, ¬Differs dir file := by
  have hzero : (exec (runChecks printed dir) (s, status)).2 = 0 :=
    (triple_runChecks (s, status) trivial).1
  rw [ReportsFailures, hzero]
  simp only [ne_eq, not_true_eq_false, false_iff, not_exists, not_and]

/-- One test, whose output is not what is expected. -/
def oneFailure : Directory :=
  [("expected01", "3\n"), ("input01", "1 2\n"), ("output01", "4\n")]

/-- A test fails, and the recipe does not. -/
theorem not_reportsFailures_oneFailure :
    ¬ReportsFailures (fun _ _ => "") oneFailure ⟨"", "", "", "", "", "", "", []⟩ 0 := by
  have hinput : "input01" ∈ inputs oneFailure := by decide
  have houtput : contents oneFailure (outputPath (cutFrom6 "input01")) = some "4\n" := by
    decide
  have hexpected : contents oneFailure (expectedPath (cutFrom6 "input01")) = some "3\n" := by
    decide
  intro hreports
  refine hreports.mpr ⟨"input01", hinput, ?_⟩ (triple_runChecks _ trivial).1
  rintro ⟨text, htext, htext'⟩
  rw [houtput] at htext
  rw [hexpected] at htext'
  cases htext
  exact absurd htext' (by decide)

end Recipe

end SimpleTestTool
end DevTools
end OsSeminars
