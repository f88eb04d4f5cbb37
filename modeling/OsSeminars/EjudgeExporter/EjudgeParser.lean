import Mathlib.Data.Int.Range
import OsSeminars.Foundation.StableSort
import OsSeminars.Foundation.Traced

/-!
# EjudgeExporter: `ejudge_parser.py`

The script logs in to an ejudge server, reads the pages of the problems of a
contest and saves the source of the newest accepted submission of each. Here it is
translated as a program that leaves a trace: requests, saved files and log
messages, until it returns or an exception leaves it.

The pages are the trees that BeautifulSoup finds in the answers, reduced to the
elements the script looks at. What the surroundings answer while one problem is
processed is a parameter, as is the function `int` on texts, which has no value
where it raises a `ValueError`. The pause between two problems is left out.
-/

namespace OsSeminars
namespace EjudgeExporter
namespace EjudgeParser

open Foundation

section Data

/-- The exceptions that lookups and assertions of the script raise. -/
inductive PyException where
  | assertionError (message : String)
  | attributeError (name : String)
  | indexError
  | valueError
  | keyError (key : String)
  | osError
  | yamlError
deriving DecidableEq

inductive Event where
  | error (message : String)
  | debug (message : String)
  | info (message : String)
  | post (url : String) (payload : List (String × String))
  | obtainedSid (sid : String)
  | getProblem (url : String) (sid : String) (problemId : Int)
  | getSolution (url : String)
  | wrote (path : String) (code : String)
deriving DecidableEq

/-- An anchor, with its attribute `href` if it has one. -/
structure Anchor where
  href : Option String

/-- A `td`, with the first anchor in it. -/
structure Cell where
  text : String
  a : Option Anchor

abbrev Row := List Cell

/-- The element of class `probNav`, with the rows of its first `table`. -/
structure ProbNav where
  table : Option (List Row)

structure ProblemPage where
  probNav : Option ProbNav

/-- A `pre` of class `line-numbers`, with the text of its `code`. -/
structure LineNumbers where
  code : Option String

structure SolutionPage where
  lineNumbers : Option LineNumbers

structure Solution where
  id : Int
  name : String
  status : String
  source : String
  lang : String
deriving DecidableEq

/-- What reading the file of the formats results in; a document is a mapping or
something else. -/
inductive FormatsFile where
  | ioError
  | scannerError
  | otherError
  | document (mapping : Option (List (String × String)))

/-- The answers of the server and of the file system for one problem. -/
structure Answers where
  page : ProblemPage
  solution : String → SolutionPage
  canMake : String → Bool
  canOpen : String → Bool

structure Parser where
  username : String
  password : String
  contestId : String
  saveToFolder : String
  ejudgeUrl : String
  createFolders : Bool
  formats : Option (List (String × String))
  sid : Option String

abbrev Run := Traced Event PyException

end Data

section Login

/-- `self.logger.error(message)`, on an object with or without its attribute `logger`. -/
def logError
    (hasLogger : Bool)
    (message : String) :
    Run PUnit :=
  if hasLogger then
    Traced.emit (.error message)
  else
    Traced.raise (.attributeError "logger")

/-- `self.prep_formats(path)`. -/
def prepFormats
    (hasLogger : Bool) :
    FormatsFile → Run (Option (List (String × String)))
  | .ioError => do
      logError hasLogger "io error"
      pure (some [])
  | .scannerError => do
      logError hasLogger "wrong yaml format"
      pure (some [])
  | .otherError => Traced.raise .yamlError
  | .document mapping => pure mapping

/-- `assert condition, message`. -/
def assertPy
    (condition : Bool)
    (message : String) :
    Run PUnit :=
  if condition then pure PUnit.unit else Traced.raise (.assertionError message)

/-- What follows the first `SID=` of a line. -/
def afterSid : List Char → Option (List Char)
  | [] => none
  | c :: cs =>
      if "SID=".toList.isPrefixOf (c :: cs) then
        some ((c :: cs).drop 4)
      else
        afterSid cs

/-- The longest part that is followed by `&`. -/
def upToLastAmp : List Char → Option (List Char)
  | [] => none
  | c :: cs =>
      match upToLastAmp cs with
      | some part => some (c :: part)
      | none => if c = '&' then some [] else none

/-- `re.findall("SID=(.*)&", text)`: the dot matches no line break and the star is
greedy, so that a line contains at most one match. -/
def findallSid
    (text : String) :
    List String :=
  (text.toList.splitOn '\n').filterMap fun line =>
    ((afterSid line).bind upToLastAmp).map String.ofList

namespace Parser

def payload
    (self : Parser) :
    List (String × String) :=
  [("contest_id", self.contestId), ("role", "0"), ("login", self.username),
    ("password", self.password), ("locale_id", "0"), ("action_2", "Log in")]

/-- `self.login()`; `links` are the anchors with a `href` in the answer to the login
form. -/
def login
    (links : List (String × String) → List String)
    (self : Parser) :
    Run Parser := do
  assertPy (self.username.length ≠ 0 && self.password.length ≠ 0) "No login info"
  assertPy (self.contestId.length ≠ 0) "No contest id"
  Traced.emit (.post (self.ejudgeUrl ++ "/client") self.payload)
  match links self.payload with
  | [] => Traced.raise (.assertionError "")
  | linkText :: _ =>
      match findallSid linkText with
      | [sid] =>
          Traced.emit (.obtainedSid sid)
          pure { self with sid := some sid }
      | _ => Traced.raise (.assertionError "No session token")

end Parser

end Login

section Table

/-- `cells[i]`. -/
def cellAt
    (cells : Row)
    (i : Nat) :
    Except PyException Cell :=
  match cells[i]? with
  | some cell => .ok cell
  | none => .error .indexError

/-- `int(text)`. -/
def intOf
    (int : String → Option Int)
    (text : String) :
    Except PyException Int :=
  match int text with
  | some value => .ok value
  | none => .error .valueError

/-- `cell.find('a').attrs['href']`. -/
def hrefOf
    (cell : Cell) :
    Except PyException String :=
  match cell.a with
  | none => .error (.attributeError "attrs")
  | some anchor =>
      match anchor.href with
      | none => .error (.keyError "href")
      | some href => .ok href

variable (int : String → Option Int)

/-- `find_td_source(row)`. -/
def findTdSource
    (parsedRow : Row) :
    Except PyException Solution := do
  let cell0 ← cellAt parsedRow 0
  let id ← intOf int cell0.text
  let cell3 ← cellAt parsedRow 3
  let name := cell3.text
  let cell4 ← cellAt parsedRow 4
  let lang := cell4.text
  let cell5 ← cellAt parsedRow 5
  let status := cell5.text
  let cell8 ← cellAt parsedRow 8
  let source ← hrefOf cell8
  pure ⟨id, name, status, source, lang⟩

/-- `self.convert_table_to_list(rows)`. -/
def convertTableToList
    (rows : List Row) :
    Except PyException (List Solution) := do
  let solutionList ← rows.mapM (findTdSource int)
  pure (StableSort.sortedReverse Solution.id solutionList)

/-- `self.sort_by_status(problem_list, status)`. -/
def sortByStatus
    (problemList : List Solution)
    (status : String) :
    List Solution :=
  problemList.filter (fun x => x.status = status)

end Table

section Problems

/-- `self.find_code(soup)`. -/
def findCode
    (soup : SolutionPage) :
    Except PyException String :=
  match soup.lineNumbers with
  | none => .error (.attributeError "find")
  | some c =>
      match c.code with
      | none => .error (.attributeError "text")
      | some code => .ok code

/-- The extension of a language in the loaded formats, `txt` when there is none. -/
def formatFor
    (formats : List (String × String))
    (lang : String) :
    String :=
  match formats.lookup lang with
  | some format => if format.length ≠ 0 then format else "txt"
  | none => "txt"

/-- `self.formats.get(lang)`, with the default. -/
def formatOf
    (formats : Option (List (String × String)))
    (lang : String) :
    Except PyException String :=
  match formats with
  | none => .error (.attributeError "get")
  | some mapping => .ok (formatFor mapping lang)

namespace Parser

def probPath
    (self : Parser)
    (solution : Solution) :
    String :=
  if self.createFolders then
    self.saveToFolder ++ "/" ++ solution.name
  else
    self.saveToFolder

/-- The path of the file a solution is written to. -/
def solutionFile
    (self : Parser)
    (solution : Solution)
    (format : String) :
    String :=
  self.probPath solution ++ "/" ++ solution.name ++ "." ++ format

/-- The part of `download_solution` that creates the folder of the problem. -/
def makeFolder
    (answers : Answers)
    (self : Parser)
    (solution : Solution) :
    Run PUnit :=
  let probPath := self.probPath solution
  if self.createFolders then
    if answers.canMake probPath then
      Traced.emit (.debug ("path " ++ probPath ++ " created successfully"))
    else
      Traced.emit (.error ("failed to create path=" ++ probPath))
  else
    pure PUnit.unit

/-- `with open(path, "w") as f: f.write(code)`. -/
def writeFile
    (answers : Answers)
    (path code : String) :
    Run PUnit :=
  if answers.canOpen path then
    Traced.emit (.wrote path code)
  else
    Traced.raise .osError

/-- `self.download_solution(solution)`. -/
def downloadSolution
    (answers : Answers)
    (self : Parser)
    (solution : Solution) :
    Run PUnit := do
  self.makeFolder answers solution
  Traced.emit (.getSolution solution.source)
  let code ← Traced.lift (findCode (answers.solution solution.source))
  let format ← Traced.lift (formatOf self.formats solution.lang)
  writeFile answers (self.solutionFile solution format) code
  Traced.emit (.info ("problem " ++ solution.name ++ " saved"))

/-- What `parse_problem` does with the rows of the table. -/
def saveNewest
    (int : String → Option Int)
    (answers : Answers)
    (self : Parser)
    (tableRows : List Row) :
    Run PUnit := do
  let problemList ← Traced.lift (convertTableToList int tableRows.tail)
  if problemList.length = 0 then
    Traced.emit (.error "solution list empty")
  else
    match sortByStatus problemList "OK" with
    | [] => Traced.emit (.error "didn't find any correct solutions")
    | solution :: _ => self.downloadSolution answers solution

/-- What `parse_problem` does with the page. -/
def parsePage
    (int : String → Option Int)
    (answers : Answers)
    (self : Parser)
    (problemId : Int) :
    Run PUnit :=
  match answers.page.probNav with
  | none => Traced.raise (.attributeError "find")
  | some problemContainer =>
      match problemContainer.table with
      | none => Traced.emit (.error ("parsing error at id = " ++ toString problemId))
      | some tableRows => self.saveNewest int answers tableRows

def problemUrl
    (self : Parser)
    (sid : String)
    (problemId : Int) :
    String :=
  self.ejudgeUrl ++ "/client?SID=" ++ sid ++ "&action=139&prob_id=" ++ toString problemId

/-- `self.parse_problem(problem_id)`. -/
def parseProblem
    (int : String → Option Int)
    (answers : Answers)
    (self : Parser)
    (problemId : Int) :
    Run PUnit :=
  match self.sid with
  | none => Traced.raise (.attributeError "sid")
  | some sid => do
      Traced.emit (.getProblem (self.problemUrl sid problemId) sid problemId)
      self.parsePage int answers problemId

/-- `self.run(count)`. -/
def run
    (int : String → Option Int)
    (links : List (String × String) → List String)
    (answers : Int → Answers)
    (self : Parser)
    (count : Int) :
    Run PUnit := do
  let self ← self.login links
  Traced.forEach (fun i => self.parseProblem int (answers i) i) (Int.range 1 (1 + count))

end Parser

/-- The options of the command line. -/
structure Options where
  username : String
  password : String
  contestId : String
  count : Int
  problemId : Int
  saveFolder : String
  ejudgeUrl : String

/-- The object that the constructor leaves. -/
def newParser
    (options : Options)
    (formats : Option (List (String × String))) :
    Parser where
  username := options.username
  password := options.password
  contestId := options.contestId
  saveToFolder := options.saveFolder
  ejudgeUrl := options.ejudgeUrl
  createFolders := true
  formats := formats
  sid := none

/-- `Parser(username, password, contest_id, save_to_folder, ejudge_url)`; the formats are
loaded before `self.logger` is set. -/
def initParser
    (file : FormatsFile)
    (options : Options) :
    Run Parser := do
  let formats ← prepFormats false file
  pure (newParser options formats)

end Problems

end EjudgeParser
end EjudgeExporter
end OsSeminars
