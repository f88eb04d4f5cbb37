import OsSeminars.EjudgeExporter.SavedProblems

/-!
# EjudgeExporter: the submission that `parse_problem` downloads

The rows of a page are sorted by their numbers, the greatest first, then reduced to
the accepted ones, and the first of these is downloaded. Which submission that is can
be read off the page: the accepted one with the greatest number, and the first row if
that number is repeated.
-/

namespace OsSeminars
namespace EjudgeExporter
namespace EjudgeParser

open Foundation

section Selection

variable {int : String → Option Int} {answers : Answers} {self : Parser}

/-- A download asks for its own submission only, whether or not it succeeds. -/
theorem downloads_downloadSolution
    (answers : Answers)
    (self : Parser)
    (s : Solution) :
    downloads (self.downloadSolution answers s).events = [s.source] := by
  obtain ⟨log, -, hlog, -, ⟨-, mapping, code, -, hload⟩ | ⟨-, e, hload⟩⟩ :=
    downloadSolution_eq answers self s
  · rw [hload, downloads, List.filterMap_append, ← downloads, hlog]
    rfl
  · rw [hload, downloads, List.filterMap_append, ← downloads, hlog]
    rfl

/-- The newest accepted submission lies behind older ones only and in front of those
that are not newer. -/
theorem newestCorrect_split
    {solutions : List Solution}
    {s : Solution}
    (h : newestCorrect solutions = some s) :
    ∃ before after, solutions = before ++ s :: after ∧ s.status = "OK" ∧
      (∀ t ∈ before, t.status = "OK" → t.id < s.id) ∧
      (∀ t ∈ after, t.status = "OK" → t.id ≤ s.id) := by
  obtain ⟨before, after, hsplit, hs, hbefore, hafter⟩ :=
    StableSort.exists_split_of_greatest h
  refine ⟨before, after, hsplit, of_decide_eq_true hs, fun t ht hok => ?_,
    fun t ht hok => ?_⟩
  · exact hbefore t ht (decide_eq_true hok)
  · exact hafter t ht (decide_eq_true hok)

/-- A readable page without an accepted submission is only logged. -/
theorem parsePage_of_none
    {solutions : List Solution}
    (hreadable : Readable int answers.page solutions)
    (hnone : newestCorrect solutions = none)
    (problemId : Int) :
    ∃ message, self.parsePage int answers problemId = Traced.emit (.error message) := by
  rcases parsePage_eq int answers self problemId with
    ⟨hunreadable, -⟩ | ⟨others, hothers, ⟨-, hlog⟩ | ⟨s, hs, -⟩⟩
  · exact absurd hreadable (hunreadable solutions)
  · exact hlog
  · rw [hothers.unique hreadable, hnone] at hs
    cases hs

/-- On a readable page the newest accepted submission is downloaded. -/
theorem parsePage_of_some
    {solutions : List Solution}
    {s : Solution}
    (hreadable : Readable int answers.page solutions)
    (hsome : newestCorrect solutions = some s)
    (problemId : Int) :
    self.parsePage int answers problemId = self.downloadSolution answers s := by
  rcases parsePage_eq int answers self problemId with
    ⟨hunreadable, -⟩ | ⟨others, hothers, ⟨hnone, -⟩ | ⟨t, ht, hload⟩⟩
  · exact absurd hreadable (hunreadable solutions)
  · rw [hothers.unique hreadable, hsome] at hnone
    cases hnone
  · rw [hothers.unique hreadable, hsome] at ht
    cases ht
    exact hload

/-- At most one submission of a page is downloaded: none when none is accepted, and
otherwise the accepted one with the greatest number, the first such row of the page. -/
theorem parsePage_downloads_newest
    (int : String → Option Int)
    (answers : Answers)
    (self : Parser)
    (problemId : Int)
    (solutions : List Solution)
    (hreadable : Readable int answers.page solutions) :
    ((∀ s ∈ solutions, s.status ≠ "OK") →
      downloads (self.parsePage int answers problemId).events = []) ∧
    ((∃ s ∈ solutions, s.status = "OK") →
      ∃ before s after,
        solutions = before ++ s :: after ∧ s.status = "OK" ∧
        (∀ t ∈ solutions, t.status = "OK" → t.id ≤ s.id) ∧
        (∀ t ∈ before, t.status = "OK" → t.id ≠ s.id) ∧
        self.parsePage int answers problemId = self.downloadSolution answers s ∧
        downloads (self.parsePage int answers problemId).events = [s.source]) := by
  refine ⟨fun hnone => ?_, fun ⟨accepted, hmem, hok⟩ => ?_⟩
  · obtain ⟨message, hpage⟩ : ∃ message,
        self.parsePage int answers problemId = Traced.emit (.error message) :=
      parsePage_of_none hreadable (newestCorrect_eq_none_iff.mpr hnone) problemId
    rw [hpage]
    rfl
  · cases hnewest : newestCorrect solutions with
    | none =>
        exact absurd hok (newestCorrect_eq_none_iff.mp hnewest accepted hmem)
    | some s =>
        have hload : self.parsePage int answers problemId =
            self.downloadSolution answers s :=
          parsePage_of_some hreadable hnewest problemId
        obtain ⟨before, after, hsplit, hs, hbefore, hafter⟩ :=
          newestCorrect_split hnewest
        refine ⟨before, s, after, hsplit, hs, fun t ht htok => ?_, fun t ht htok => ?_,
          hload, ?_⟩
        · rw [hsplit] at ht
          rcases List.mem_append.mp ht with ht | ht
          · exact le_of_lt (hbefore t ht htok)
          · rcases List.mem_cons.mp ht with rfl | ht
            · exact le_refl t.id
            · exact hafter t ht htok
        · exact ne_of_lt (hbefore t ht htok)
        · rw [hload]
          exact downloads_downloadSolution answers self s

/-- A row with a number, a status and a source. -/
def historyRow
    (id status source : String) :
    Row :=
  [⟨id, none⟩, ⟨"", none⟩, ⟨"", none⟩, ⟨"A", none⟩, ⟨"gcc", none⟩, ⟨status, none⟩,
    ⟨"", none⟩, ⟨"", none⟩, ⟨"View", some ⟨some source⟩⟩]

theorem rowOf_historyRow
    {idText : String}
    {id : Int}
    (hid : decimalInt idText = some id)
    (status source : String) :
    RowOf decimalInt (historyRow idText status source) ⟨id, "A", status, source, "gcc"⟩ :=
  ⟨⟨_, rfl, hid⟩, ⟨_, rfl, rfl⟩, ⟨_, rfl, rfl⟩, ⟨_, rfl, rfl⟩, ⟨_, rfl, rfl⟩⟩

/-- A rejected submission in front of two accepted ones with equal numbers. -/
def repeatedPage : ProblemPage :=
  ⟨some ⟨some [[], historyRow "9" "Wrong answer" "ninth", historyRow "7" "OK" "first",
    historyRow "7" "OK" "second"]⟩⟩

def repeatedAnswers : Answers :=
  { acceptedAnswers with page := repeatedPage }

def repeatedSolutions : List Solution :=
  [⟨9, "A", "Wrong answer", "ninth", "gcc"⟩, ⟨7, "A", "OK", "first", "gcc"⟩,
    ⟨7, "A", "OK", "second", "gcc"⟩]

theorem readable_repeatedPage :
    Readable decimalInt repeatedPage repeatedSolutions := by
  have hseven : decimalInt "7" = some 7 := by decide
  have hnine : decimalInt "9" = some 9 := by decide
  refine ⟨Option.some_ne_none _, List.Forall₂.cons ?_ (List.Forall₂.cons ?_
    (List.Forall₂.cons ?_ List.Forall₂.nil))⟩
  · exact rowOf_historyRow hnine "Wrong answer" "ninth"
  · exact rowOf_historyRow hseven "OK" "first"
  · exact rowOf_historyRow hseven "OK" "second"

theorem parsePage_downloads_newest_repeatedPage :
    downloads ((newParser (optionsFor 1 0) none).parsePage decimalInt
      repeatedAnswers 1).events = ["first"] := by
  obtain ⟨-, hsome⟩ := parsePage_downloads_newest decimalInt repeatedAnswers
    (newParser (optionsFor 1 0) none) 1 repeatedSolutions readable_repeatedPage
  obtain ⟨before, s, after, hsplit, hok, -, hbefore, -, hdownloads⟩ :=
    hsome ⟨⟨7, "A", "OK", "first", "gcc"⟩, by decide, rfl⟩
  rw [hdownloads]
  match before, hsplit with
  | [], hsplit =>
      cases hsplit
      exact absurd hok (by decide)
  | [_], hsplit =>
      cases hsplit
      rfl
  | [_, _], hsplit =>
      cases hsplit
      exact absurd rfl (hbefore ⟨7, "A", "OK", "first", "gcc"⟩ (by decide) rfl)
  | _ :: _ :: _ :: rest, hsplit =>
      cases rest <;> cases hsplit

end Selection

end EjudgeParser
end EjudgeExporter
end OsSeminars
