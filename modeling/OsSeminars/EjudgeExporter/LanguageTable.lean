import OsSeminars.EjudgeExporter.SavedProblems

/-!
# EjudgeExporter: the table of extensions

`lang_formats.yml` maps the languages of ejudge to file extensions. Without a table, or
without an entry for a language, `ejudge_parser.py` is meant to use `txt`: the handlers
of `prep_formats` return an empty table, and `download_solution` asks whether there is
one at all.

The handlers use `self.logger`, which the constructor sets only later, and the question
is asked behind the lookup. So neither a file that cannot be read nor an empty one leads
to `txt`; only a table does.
-/

namespace OsSeminars
namespace EjudgeExporter
namespace EjudgeParser

open Foundation

/-- `download_solution` with an extension that is already chosen and a page whose code
has been found. -/
def Parser.saveAs
    (answers : Answers)
    (self : Parser)
    (solution : Solution)
    (format code : String) :
    Run PUnit := do
  self.makeFolder answers solution
  Traced.emit (.getSolution solution.source)
  writeFile answers (self.solutionFile solution format) code
  Traced.emit (.info ("problem " ++ solution.name ++ " saved"))

/-- The extension that the file maps the language to, and `txt` without one. -/
def mappedOrTxt
    (file : FormatsFile)
    (lang : String) :
    String :=
  (((loadedFormats file).bind fun mapping => mapping.lookup lang)).getD "txt"

/-- The constructor succeeds, and solutions in the language are saved with the extension
of the table, or with `txt`. -/
def ChoosesExtension
    (file : FormatsFile)
    (lang : String) :
    Prop :=
  ∀ options, ∃ self, (initParser file options).result = .ok self ∧
    ∀ answers solution code,
      solution.lang = lang →
      (answers.solution solution.source).lineNumbers = some ⟨some code⟩ →
      self.downloadSolution answers solution =
        self.saveAs answers solution (mappedOrTxt file lang) code

section Downloads

variable {answers : Answers} {self : Parser} {s : Solution} {code : String}

theorem downloadSolution_of_formats
    {mapping : List (String × String)}
    (hformats : self.formats = some mapping)
    (hcode : (answers.solution s.source).lineNumbers = some ⟨some code⟩) :
    self.downloadSolution answers s =
      self.saveAs answers s (formatFor mapping s.lang) code := by
  simp only [Parser.downloadSolution, findCode, hcode, formatOf, hformats,
    Traced.lift_ok_bind]
  rfl

/-- Without a table the lookup raises. -/
theorem not_returns_downloadSolution
    (answers : Answers)
    (s : Solution)
    (hformats : self.formats = none) :
    ¬(self.downloadSolution answers s).Returns := by
  rw [returns_downloadSolution_iff]
  rintro ⟨code, mapping, -, hmapping, -⟩
  rw [hformats] at hmapping
  cases hmapping

/-- When its file can be opened a solution is saved. -/
theorem saveAs_eq
    (self : Parser)
    (s : Solution)
    (code : String)
    (hopen : ∀ path, answers.canOpen path = true) :
    ∃ log, ∀ format,
      self.saveAs answers s format code =
        ⟨log ++ [.getSolution s.source, .wrote (self.solutionFile s format) code,
          .info ("problem " ++ s.name ++ " saved")], .ok PUnit.unit⟩ := by
  obtain ⟨log, hfolder, -⟩ := makeFolder_spec answers self s
  refine ⟨log, fun format => ?_⟩
  rw [Parser.saveAs, hfolder, Parser.writeFile, if_pos (hopen _)]
  rfl

theorem returns_saveAs
    (hopen : ∀ path, answers.canOpen path = true)
    (format : String) :
    (self.saveAs answers s format code).Returns := by
  obtain ⟨log, hsave⟩ := saveAs_eq self s code hopen
  rw [hsave]
  exact ⟨PUnit.unit, rfl⟩

/-- Different extensions lead to different files. -/
theorem solutionFile_inj
    {format format' : String}
    (h : self.solutionFile s format = self.solutionFile s format') :
    format = format' := by
  have hchars := congrArg String.toList h
  simp only [Parser.solutionFile, String.toList_append] at hchars
  exact String.toList_injective (List.append_cancel_left hchars)

theorem saveAs_inj
    {format format' : String}
    (hopen : ∀ path, answers.canOpen path = true)
    (h : self.saveAs answers s format code = self.saveAs answers s format' code) :
    format = format' := by
  obtain ⟨log, hsave⟩ := saveAs_eq self s code hopen
  rw [hsave, hsave] at h
  have htail := List.append_cancel_left (congrArg Traced.events h)
  simp only [List.cons.injEq, Event.wrote.injEq, true_and, and_true] at htail
  exact solutionFile_inj htail

end Downloads

section Table

variable {file : FormatsFile} {lang : String} {mapping : List (String × String)}

/-- `download_solution` takes an empty extension for none. -/
theorem formatFor_eq_iff :
    formatFor mapping lang = (mapping.lookup lang).getD "txt" ↔
      mapping.lookup lang ≠ some "" := by
  rw [formatFor]
  cases hlookup : mapping.lookup lang with
  | none =>
      simp
  | some format =>
      by_cases hempty : format = ""
      · subst hempty
        simp
      · have hlength : format.length ≠ 0 := by
          rw [Ne, String.length_eq_zero_iff]
          exact hempty
        simp [hempty]

theorem loadedFormats_eq_some_iff :
    loadedFormats file = some mapping ↔ file = .document (some mapping) := by
  cases file <;> simp [loadedFormats]

/-- A solution in the language, whose source is there and whose file can be written. -/
def solutionIn
    (lang : String) :
    Solution :=
  { acceptedSolution with lang := lang }

/-- Without a table nothing is saved, whatever the reason is. -/
theorem not_choosesExtension_of_unloaded
    (h : loadedFormats file = none)
    (lang : String) :
    ¬ChoosesExtension file lang := by
  intro hchooses
  obtain ⟨self, hself, hdownload⟩ := hchooses (optionsFor 1 0)
  rcases initParser_eq file (optionsFor 1 0) with hinit | ⟨-, e, hinit⟩
  · rw [hinit] at hself
    cases hself
    have hformats : (newParser (optionsFor 1 0) (loadedFormats file)).formats = none := h
    have hraises := not_returns_downloadSolution acceptedAnswers (solutionIn lang) hformats
    rw [hdownload acceptedAnswers (solutionIn lang) "int main() {}" rfl rfl] at hraises
    exact hraises (returns_saveAs (fun _ => rfl) _)
  · rw [hinit] at hself
    cases hself

/-- The constructor succeeds and the extension is the one of the table, or `txt`, if and
only if the file holds a table that does not map the language to the empty text. -/
theorem choosesExtension_iff
    (file : FormatsFile)
    (lang : String) :
    ChoosesExtension file lang ↔
      ∃ mapping, file = .document (some mapping) ∧ mapping.lookup lang ≠ some "" := by
  cases hloaded : loadedFormats file with
  | none =>
      refine iff_of_false (not_choosesExtension_of_unloaded hloaded lang) ?_
      rintro ⟨mapping, hfile, -⟩
      rw [loadedFormats_eq_some_iff.mpr hfile] at hloaded
      cases hloaded
  | some mapping =>
      have hfile := loadedFormats_eq_some_iff.mp hloaded
      have hmapped : mappedOrTxt file lang = (mapping.lookup lang).getD "txt" := by
        rw [mappedOrTxt, hloaded, Option.bind_some]
      subst hfile
      constructor
      · intro hchooses
        refine ⟨mapping, rfl, formatFor_eq_iff.mp ?_⟩
        obtain ⟨self, hself, hdownload⟩ := hchooses (optionsFor 1 0)
        cases hself
        have hsaved := hdownload acceptedAnswers (solutionIn lang) "int main() {}" rfl rfl
        have hformats : (newParser (optionsFor 1 0) (some mapping)).formats =
          some mapping := rfl
        have hdone := downloadSolution_of_formats (s := solutionIn lang) hformats
          (rfl : (acceptedAnswers.solution (solutionIn lang).source).lineNumbers = _)
        exact saveAs_inj (fun _ => rfl) (hdone.symm.trans (hsaved.trans (by rw [hmapped])))
      · rintro ⟨mapping', hsame, hlookup⟩ options
        cases hsame
        refine ⟨newParser options (some mapping), rfl, fun answers s code hlang hcode => ?_⟩
        have hformats : (newParser options (some mapping)).formats = some mapping := rfl
        rw [downloadSolution_of_formats hformats hcode, hmapped, hlang,
          formatFor_eq_iff.mpr hlookup]

/-- Neither a missing file nor an empty one leads to `txt`. -/
theorem not_choosesExtension_withoutTable :
    ¬ChoosesExtension .ioError "gcc" ∧ ¬ChoosesExtension (.document none) "gcc" :=
  ⟨not_choosesExtension_of_unloaded rfl "gcc", not_choosesExtension_of_unloaded rfl "gcc"⟩

end Table

end EjudgeParser
end EjudgeExporter
end OsSeminars
