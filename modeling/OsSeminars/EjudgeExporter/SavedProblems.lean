import OsSeminars.EjudgeExporter.ProblemPages

/-!
# EjudgeExporter: the problems that `ejudge_parser.py` saves

A run should log in before it asks for a problem and save one solution for every
requested problem whose page shows an accepted submission, whatever the pages of
the other problems look like.

An exception that a page raises is not caught in the loop over the problems, and
with `--problem_id` the script asks for the page without having logged in. The
problems that are saved are determined exactly: the loop ends with the first page
that cannot be processed, and the other branch saves nothing.

The name of the file comes from the name of the problem on its page and from the
language. A later problem that is saved under a path to the same file replaces the
solution of the earlier one, so a problem counts as saved only if no later file
replaces its own. Which file a path leads to is a parameter.
-/

namespace OsSeminars
namespace EjudgeExporter
namespace EjudgeParser

open Foundation

section Saved

/-- The formats that are loaded from the file, if it is not refused. -/
def loadedFormats : FormatsFile → Option (List (String × String))
  | .document mapping => mapping
  | _ => none

end Saved

section Runs

variable {int : String → Option Int} {file : FormatsFile}
variable {links : List (String × String) → List String}
variable {answers : Int → Answers} {options : Options} {leadsTo : String → String}

/-- The constructor leaves an object if the file holds a document, and only then. -/
theorem initParser_eq
    (file : FormatsFile)
    (options : Options) :
    initParser file options = pure (newParser options (loadedFormats file)) ∨
      (loadedFormats file = none ∧ ∃ e, initParser file options = Traced.raise e) := by
  cases file with
  | ioError =>
      exact Or.inr ⟨rfl, .attributeError "logger", rfl⟩
  | scannerError =>
      exact Or.inr ⟨rfl, .attributeError "logger", rfl⟩
  | otherError =>
      exact Or.inr ⟨rfl, .yamlError, rfl⟩
  | document mapping =>
      exact Or.inl rfl

section Login

variable (formats : Option (List (String × String)))

end Login

section Loop

variable {self : Parser} {sid : String} {start : List Event} {count : Int}

end Loop

end Runs

section Results

/-- `int` on texts of decimal digits. -/
def decimalInt
    (text : String) :
    Option Int :=
  if text.length ≠ 0 && text.toList.all Char.isDigit then
    some (text.toList.foldl (fun n c => 10 * n + (c.toNat - 48)) 0)
  else
    none

/-- An accepted submission for the problem of this name. -/
def solutionNamed
    (name : String) :
    Solution :=
  ⟨7, name, "OK", "https://ejudge.atp-fivt.org/source", "gcc"⟩

def rowNamed
    (name : String) :
    Row :=
  [⟨"7", none⟩, ⟨"", none⟩, ⟨"", none⟩, ⟨name, none⟩, ⟨"gcc", none⟩, ⟨"OK", none⟩,
    ⟨"", none⟩, ⟨"", none⟩, ⟨"View", some ⟨some "https://ejudge.atp-fivt.org/source"⟩⟩]

/-- The answers for a problem with one accepted submission below the header. -/
def answersNamed
    (name : String) :
    Answers :=
  ⟨⟨some ⟨some [[], rowNamed name]⟩⟩, fun _ => ⟨some ⟨some "int main() {}"⟩⟩, fun _ => true,
    fun _ => true⟩

def acceptedSolution : Solution :=
  solutionNamed "A"

def acceptedAnswers : Answers :=
  answersNamed "A"

def optionsFor
    (count problemId : Int) :
    Options :=
  ⟨"student", "secret", "1", count, problemId, "./content/", "https://ejudge.atp-fivt.org"⟩

end Results

end EjudgeParser
end EjudgeExporter
end OsSeminars
