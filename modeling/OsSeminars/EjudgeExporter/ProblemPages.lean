import OsSeminars.EjudgeExporter.EjudgeParser
import OsSeminars.Foundation.Fallible

/-!
# EjudgeExporter: the page of a problem

What the helpers of `ejudge_parser.py` accept is stated on the page itself: which
rows are submissions, when a page can be read, which accepted submission is the
newest, and what has to be there for its download.

A page is processed without an exception exactly under these conditions, and it
writes one file exactly when it then shows an accepted submission.
-/

namespace OsSeminars
namespace EjudgeExporter
namespace EjudgeParser

open Foundation

section Rows

/-- A row in the layout of the table of submissions, with its submission. -/
structure RowOf
    (int : String → Option Int)
    (row : Row)
    (s : Solution) :
    Prop where
  id : ∃ cell, row[0]? = some cell ∧ int cell.text = some s.id
  name : ∃ cell, row[3]? = some cell ∧ cell.text = s.name
  lang : ∃ cell, row[4]? = some cell ∧ cell.text = s.lang
  status : ∃ cell, row[5]? = some cell ∧ cell.text = s.status
  source : ∃ cell, row[8]? = some cell ∧ cell.a = some ⟨some s.source⟩

/-- The rows of the table below its header. -/
def dataRows
    (page : ProblemPage) :
    List Row :=
  ((page.probNav.bind ProbNav.table).getD []).tail

/-- The page has its block of class `probNav`, and its rows are the submissions. -/
def Readable
    (int : String → Option Int)
    (page : ProblemPage)
    (solutions : List Solution) :
    Prop :=
  page.probNav ≠ none ∧ List.Forall₂ (RowOf int) (dataRows page) solutions

/-- The accepted submission with the greatest number. -/
def newestCorrect
    (solutions : List Solution) :
    Option Solution :=
  StableSort.greatest Solution.id (fun s => s.status = "OK") solutions

/-- The source of the submission is there, the formats are known and the file can be
written. -/
def Downloadable
    (answers : Answers)
    (self : Parser)
    (s : Solution) :
    Prop :=
  ∃ code mapping,
    (answers.solution s.source).lineNumbers = some ⟨some code⟩ ∧
    self.formats = some mapping ∧
    answers.canOpen (self.solutionFile s (formatFor mapping s.lang)) = true

/-- The path that the newest accepted submission of the page is saved under. -/
def SavedAs
    (int : String → Option Int)
    (answers : Answers)
    (self : Parser)
    (path : String) :
    Prop :=
  ∃ solutions s mapping,
    Readable int answers.page solutions ∧
    newestCorrect solutions = some s ∧
    self.formats = some mapping ∧
    path = self.solutionFile s (formatFor mapping s.lang)

variable {int : String → Option Int}

theorem cellAt_eq_ok_iff
    {row : Row}
    {i : Nat}
    {cell : Cell} :
    cellAt row i = .ok cell ↔ row[i]? = some cell := by
  cases h : row[i]? <;> simp [cellAt, h]

theorem intOf_eq_ok_iff
    {text : String}
    {value : Int} :
    intOf int text = .ok value ↔ int text = some value := by
  cases h : int text <;> simp [intOf, h]

theorem hrefOf_eq_ok_iff
    {cell : Cell}
    {href : String} :
    hrefOf cell = .ok href ↔ cell.a = some ⟨some href⟩ := by
  rcases cell with ⟨text, _ | ⟨_ | target⟩⟩ <;> simp [hrefOf]

/-- `find_td_source` accepts the rows in the layout of the table. -/
theorem findTdSource_eq_ok_iff
    {row : Row}
    {s : Solution} :
    findTdSource int row = .ok s ↔ RowOf int row s := by
  simp only [findTdSource, except_bind_eq_ok_iff, cellAt_eq_ok_iff, intOf_eq_ok_iff,
    hrefOf_eq_ok_iff]
  constructor
  · rintro ⟨cell0, h0, id, hid, cell3, h3, cell4, h4, cell5, h5, cell8, h8, source,
      hsource, h⟩
    cases h
    exact ⟨⟨cell0, h0, hid⟩, ⟨cell3, h3, rfl⟩, ⟨cell4, h4, rfl⟩, ⟨cell5, h5, rfl⟩,
      ⟨cell8, h8, hsource⟩⟩
  · rintro ⟨⟨cell0, h0, hid⟩, ⟨cell3, h3, hname⟩, ⟨cell4, h4, hlang⟩,
      ⟨cell5, h5, hstatus⟩, ⟨cell8, h8, hsource⟩⟩
    refine ⟨cell0, h0, s.id, hid, cell3, h3, cell4, h4, cell5, h5, cell8, h8, s.source,
      hsource, ?_⟩
    rw [hname, hlang, hstatus]
    rfl

/-- `convert_table_to_list` needs every row in the layout of the table. -/
theorem convertTableToList_eq_ok_iff
    {rows : List Row}
    {problemList : List Solution} :
    convertTableToList int rows = .ok problemList ↔
      ∃ solutions, List.Forall₂ (RowOf int) rows solutions ∧
        problemList = StableSort.sortedReverse Solution.id solutions := by
  simp only [convertTableToList, except_bind_eq_ok_iff, mapM_eq_ok_iff,
    findTdSource_eq_ok_iff]
  constructor
  · rintro ⟨solutions, hrows, h⟩
    cases h
    exact ⟨solutions, hrows, rfl⟩
  · rintro ⟨solutions, hrows, rfl⟩
    exact ⟨solutions, hrows, rfl⟩

/-- The first solution of the sorted and filtered list is the newest one. -/
theorem head?_sortByStatus
    (solutions : List Solution) :
    (sortByStatus (StableSort.sortedReverse Solution.id solutions) "OK").head? =
      newestCorrect solutions :=
  StableSort.head?_filter_sortedReverse Solution.id _ solutions

theorem newestCorrect_eq_none_iff
    {solutions : List Solution} :
    newestCorrect solutions = none ↔ ∀ s ∈ solutions, s.status ≠ "OK" := by
  rw [newestCorrect, StableSort.greatest_eq_none_iff]
  simp only [decide_eq_false_iff_not]

/-- A row is the row of at most one submission. -/
theorem RowOf.unique
    {row : Row}
    {s t : Solution}
    (hs : RowOf int row s)
    (ht : RowOf int row t) :
    s = t := by
  have hrow := findTdSource_eq_ok_iff.mpr hs
  rw [findTdSource_eq_ok_iff.mpr ht] at hrow
  exact (Except.ok.inj hrow).symm

theorem Readable.unique
    {page : ProblemPage}
    {solutions others : List Solution}
    (h : Readable int page solutions)
    (h' : Readable int page others) :
    solutions = others :=
  List.right_unique_forall₂' (fun _ _ _ hs ht => hs.unique ht) h.2 h'.2

/-- A page is saved under one path. -/
theorem SavedAs.unique
    {answers : Answers}
    {self : Parser}
    {path other : String}
    (h : SavedAs int answers self path)
    (h' : SavedAs int answers self other) :
    path = other := by
  obtain ⟨solutions, s, mapping, hreadable, hs, hformats, rfl⟩ := h
  obtain ⟨others, t, mapping', hothers, ht, hformats', rfl⟩ := h'
  cases hreadable.unique hothers
  cases hs.symm.trans ht
  cases hformats.symm.trans hformats'
  rfl

end Rows

section Pages

def Event.isGetProblem : Event → Bool
  | .getProblem _ _ _ => true
  | _ => false

/-- The paths of the files that are written. -/
def writtenPaths
    (events : List Event) :
    List String :=
  events.filterMap fun
    | .wrote path _ => some path
    | _ => none

/-- The sources of the submissions that are asked for. -/
def downloads
    (events : List Event) :
    List String :=
  events.filterMap fun
    | .getSolution source => some source
    | _ => none

variable {int : String → Option Int} {answers : Answers} {self : Parser}
variable {s : Solution}

/-- A folder that cannot be created is only logged. -/
theorem makeFolder_spec
    (answers : Answers)
    (self : Parser)
    (s : Solution) :
    ∃ log, self.makeFolder answers s = ⟨log, .ok PUnit.unit⟩ ∧
      writtenPaths log = [] ∧ downloads log = [] ∧ ∀ e ∈ log, e.isGetProblem = false := by
  simp only [Parser.makeFolder]
  split_ifs with hcreate hmake
  · exact ⟨_, rfl, rfl, rfl, by simp [Event.isGetProblem]⟩
  · exact ⟨_, rfl, rfl, rfl, by simp [Event.isGetProblem]⟩
  · exact ⟨[], rfl, rfl, rfl, by simp⟩

/-- The events of a download that ends behind its request, or behind the file. -/
theorem downloadSolution_eq
    (answers : Answers)
    (self : Parser)
    (s : Solution) :
    ∃ log, writtenPaths log = [] ∧ downloads log = [] ∧
      (∀ e ∈ log, e.isGetProblem = false) ∧
      ((Downloadable answers self s ∧ ∃ mapping code,
          self.formats = some mapping ∧
          self.downloadSolution answers s =
            ⟨log ++ [.getSolution s.source,
              .wrote (self.solutionFile s (formatFor mapping s.lang)) code,
              .info ("problem " ++ s.name ++ " saved")], .ok PUnit.unit⟩) ∨
        (¬Downloadable answers self s ∧ ∃ e,
          self.downloadSolution answers s =
            ⟨log ++ [.getSolution s.source], .error e⟩)) := by
  obtain ⟨log, hfolder, hpaths, hdownloads, hquiet⟩ := makeFolder_spec answers self s
  refine ⟨log, hpaths, hdownloads, hquiet, ?_⟩
  rw [Parser.downloadSolution, hfolder, Downloadable]
  rcases hpage : (answers.solution s.source).lineNumbers with _ | ⟨_ | code⟩
  · right
    refine ⟨by simp, .attributeError "find", ?_⟩
    simp only [findCode, hpage]
    rfl
  · right
    refine ⟨by simp, .attributeError "text", ?_⟩
    simp only [findCode, hpage]
    rfl
  · cases hformats : self.formats with
    | none =>
        right
        refine ⟨by simp, .attributeError "get", ?_⟩
        simp only [findCode, hpage, formatOf]
        rfl
    | some mapping =>
        simp only [findCode, hpage, formatOf, Parser.writeFile, Traced.lift_ok_bind]
        by_cases hopen :
            answers.canOpen (self.solutionFile s (formatFor mapping s.lang)) = true
        · left
          refine ⟨⟨code, mapping, rfl, rfl, hopen⟩, mapping, code, rfl, ?_⟩
          rw [if_pos hopen]
          rfl
        · right
          refine ⟨?_, .osError, ?_⟩
          · rintro ⟨code', mapping', -, hmapping, hopen'⟩
            cases hmapping
            exact hopen hopen'
          · rw [if_neg hopen]
            rfl

theorem returns_downloadSolution_iff :
    (self.downloadSolution answers s).Returns ↔ Downloadable answers self s := by
  obtain ⟨log, -, -, -, ⟨hdown, mapping, code, -, hload⟩ | ⟨hdown, e, hload⟩⟩ :=
    downloadSolution_eq answers self s
  · rw [hload]
    exact iff_of_true ⟨PUnit.unit, rfl⟩ hdown
  · rw [hload]
    refine iff_of_false ?_ hdown
    rintro ⟨a, ha⟩
    cases ha

/-- What becomes of a page: it raises, it shows no accepted submission, or the newest
one is downloaded. -/
theorem parsePage_eq
    (int : String → Option Int)
    (answers : Answers)
    (self : Parser)
    (problemId : Int) :
    ((∀ solutions, ¬Readable int answers.page solutions) ∧
        ∃ e, self.parsePage int answers problemId = Traced.raise e) ∨
    ∃ solutions, Readable int answers.page solutions ∧
      ((newestCorrect solutions = none ∧
          ∃ message, self.parsePage int answers problemId = Traced.emit (.error message)) ∨
        ∃ s, newestCorrect solutions = some s ∧
          self.parsePage int answers problemId = self.downloadSolution answers s) := by
  rw [Parser.parsePage]
  rcases hnav : answers.page.probNav with _ | ⟨_ | tableRows⟩
  · left
    exact ⟨fun solutions h => h.1 hnav, .attributeError "find", rfl⟩
  · right
    refine ⟨[], ⟨by simp [hnav], by simp [dataRows, hnav]⟩, Or.inl ⟨rfl, ?_⟩⟩
    exact ⟨_, rfl⟩
  · have hrows : dataRows answers.page = tableRows.tail := by
      simp [dataRows, hnav]
    simp only [Parser.saveNewest]
    cases hlist : convertTableToList int tableRows.tail with
    | error e =>
        left
        refine ⟨fun solutions h => ?_, e, rfl⟩
        have hok := convertTableToList_eq_ok_iff.mpr ⟨solutions, hrows ▸ h.2, rfl⟩
        rw [hlist] at hok
        cases hok
    | ok problemList =>
        right
        obtain ⟨solutions, hsolutions, rfl⟩ := convertTableToList_eq_ok_iff.mp hlist
        refine ⟨solutions, ⟨by simp [hnav], hrows ▸ hsolutions⟩, ?_⟩
        have hnewest := head?_sortByStatus solutions
        rw [Traced.lift_ok_bind]
        split_ifs with hempty
        · left
          rw [List.eq_nil_of_length_eq_zero hempty] at hnewest
          exact ⟨hnewest.symm, _, rfl⟩
        · cases hfiltered :
              sortByStatus (StableSort.sortedReverse Solution.id solutions) "OK" with
          | nil =>
              rw [hfiltered] at hnewest
              exact Or.inl ⟨hnewest.symm, _, rfl⟩
          | cons s rest =>
              rw [hfiltered] at hnewest
              exact Or.inr ⟨s, hnewest.symm, rfl⟩

end Pages

end EjudgeParser
end EjudgeExporter
end OsSeminars
