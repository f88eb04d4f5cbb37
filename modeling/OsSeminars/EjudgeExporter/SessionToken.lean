import OsSeminars.EjudgeExporter.SavedProblems

/-!
# EjudgeExporter: the session id that `login` stores

`login` searches the first link for `SID=(.*)&`. The search starts at the first
`SID=` of a line, wherever that stands, and the star takes everything up to the last
`&` of the line. So the value of the parameter is stored when exactly one parameter
follows it; with more of them the text in between is stored too, and with none the
search fails.
-/

namespace OsSeminars
namespace EjudgeExporter
namespace EjudgeParser

open Foundation

/-- The text in front of a value. -/
def sidKey : List Char :=
  ['S', 'I', 'D', '=']

section Patterns

/-- The key occurs in the line at no earlier place than behind `before`. -/
def FirstSid
    (line before : List Char) :
    Prop :=
  ∀ earlier rest, line = earlier ++ sidKey ++ rest → before.length ≤ earlier.length

/-- The value stands between the first key of the line and its last `&`. -/
def Delimited
    (line value : List Char) :
    Prop :=
  ∃ before after,
    line = before ++ sidKey ++ value ++ '&' :: after ∧
    FirstSid line before ∧ '&' ∉ after

/-- No key of the line has an `&` behind it. -/
def Undelimited
    (line : List Char) :
    Prop :=
  ∀ before value after, line ≠ before ++ sidKey ++ value ++ '&' :: after

theorem afterSid_eq_some_iff
    {line rest : List Char} :
    afterSid line = some rest ↔
      ∃ before, line = before ++ sidKey ++ rest ∧ FirstSid line before := by
  induction line with
  | nil =>
      refine iff_of_false (by simp [afterSid]) ?_
      rintro ⟨before, h, -⟩
      simp [sidKey] at h
  | cons c cs ih =>
      by_cases hkey : "SID=".toList.isPrefixOf (c :: cs) = true
      · obtain ⟨tail, htail⟩ := List.isPrefixOf_iff_prefix.mp hkey
        have hline : c :: cs = sidKey ++ tail := htail.symm
        rw [afterSid, if_pos hkey, hline]
        constructor
        · intro h
          cases h
          exact ⟨[], rfl, fun earlier rest _ => Nat.zero_le _⟩
        · rintro ⟨before, h, hfirst⟩
          have hnil : before = [] :=
            List.eq_nil_of_length_eq_zero (Nat.le_zero.mp (hfirst [] tail rfl))
          subst hnil
          have hrest : tail = rest := List.append_cancel_left h
          rw [hrest]
          rfl
      · rw [afterSid, if_neg hkey, ih]
        constructor
        · rintro ⟨before, rfl, hfirst⟩
          refine ⟨c :: before, rfl, fun earlier rest' h => ?_⟩
          cases earlier with
          | nil =>
              refine absurd (List.isPrefixOf_iff_prefix.mpr ⟨rest', ?_⟩) hkey
              exact h.symm
          | cons d earlier =>
              have htail := (List.cons.inj h).2
              exact Nat.succ_le_succ (hfirst earlier rest' htail)
        · rintro ⟨before, h, hfirst⟩
          cases before with
          | nil =>
              refine absurd (List.isPrefixOf_iff_prefix.mpr ⟨rest, ?_⟩) hkey
              exact h.symm
          | cons d before =>
              obtain ⟨rfl, rfl⟩ := List.cons.inj h
              refine ⟨before, rfl, fun earlier rest' h' => ?_⟩
              have hle := hfirst (c :: earlier) rest' (congrArg (c :: ·) h')
              exact Nat.succ_le_succ_iff.mp hle

theorem upToLastAmp_eq_none_iff
    {cs : List Char} :
    upToLastAmp cs = none ↔ '&' ∉ cs := by
  induction cs with
  | nil =>
      simp [upToLastAmp]
  | cons c cs ih =>
      cases h : upToLastAmp cs with
      | some part =>
          have hmem : '&' ∈ cs := by
            by_contra hnot
            rw [ih.mpr hnot] at h
            cases h
          simp [upToLastAmp, h, hmem]
      | none =>
          have hnot := ih.mp h
          by_cases hc : c = '&'
          · simp [upToLastAmp, h, hc]
          · simp [upToLastAmp, h, hc, hnot, Ne.symm hc]

theorem upToLastAmp_eq_some_iff
    {cs part : List Char} :
    upToLastAmp cs = some part ↔ ∃ after, cs = part ++ '&' :: after ∧ '&' ∉ after := by
  induction cs generalizing part with
  | nil =>
      simp [upToLastAmp]
  | cons c cs ih =>
      cases h : upToLastAmp cs with
      | some found =>
          obtain ⟨after, rfl, hafter⟩ := ih.mp h
          simp only [upToLastAmp, h]
          constructor
          · intro hpart
            cases hpart
            exact ⟨after, rfl, hafter⟩
          · rintro ⟨after', hcs, hafter'⟩
            cases part with
            | nil =>
                obtain ⟨-, rfl⟩ := List.cons.inj hcs
                exact absurd (by simp) hafter'
            | cons d part =>
                obtain ⟨rfl, htail⟩ := List.cons.inj hcs
                have hfound := ih.mpr ⟨after', htail, hafter'⟩
                rw [h] at hfound
                cases hfound
                rfl
      | none =>
          have hnot := upToLastAmp_eq_none_iff.mp h
          simp only [upToLastAmp, h]
          constructor
          · intro hpart
            split_ifs at hpart with hc
            cases hpart
            exact ⟨cs, by rw [hc]; rfl, hnot⟩
          · rintro ⟨after, hcs, -⟩
            cases part with
            | nil =>
                obtain ⟨rfl, -⟩ := List.cons.inj hcs
                rfl
            | cons d part =>
                obtain ⟨-, rfl⟩ := List.cons.inj hcs
                exact absurd (by simp) hnot

/-- A text that contains the key contains it at a first place. -/
theorem exists_firstSid
    {line earlier tail : List Char}
    (h : line = earlier ++ sidKey ++ tail) :
    ∃ before rest,
      line = before ++ sidKey ++ rest ∧ FirstSid line before ∧ tail <:+ rest := by
  classical
  have hplace : ∃ n, ∃ before rest,
      line = before ++ sidKey ++ rest ∧ before.length = n :=
    ⟨earlier.length, earlier, tail, h, rfl⟩
  obtain ⟨before, rest, hline, hlength⟩ := Nat.find_spec hplace
  have hfirst : FirstSid line before := by
    intro other rest' hother
    rw [hlength]
    exact Nat.find_min' hplace ⟨other, rest', hother, rfl⟩
  refine ⟨before, rest, hline, hfirst, ?_⟩
  have hle := hfirst earlier tail h
  have htail : tail <:+ line := ⟨earlier ++ sidKey, h.symm⟩
  have hrest : rest <:+ line := ⟨before ++ sidKey, hline.symm⟩
  refine List.suffix_of_suffix_length_le htail hrest ?_
  have hsame := congrArg List.length (h.symm.trans hline)
  simp only [List.length_append] at hsame
  omega

/-- The match of a line, if there is one. -/
theorem match_eq_some_iff
    {line value : List Char} :
    (afterSid line).bind upToLastAmp = some value ↔ Delimited line value := by
  rw [Option.bind_eq_some_iff]
  constructor
  · rintro ⟨rest, hrest, hvalue⟩
    obtain ⟨before, hline, hfirst⟩ := afterSid_eq_some_iff.mp hrest
    obtain ⟨after, rfl, hafter⟩ := upToLastAmp_eq_some_iff.mp hvalue
    refine ⟨before, after, ?_, hfirst, hafter⟩
    rw [hline, List.append_assoc _ value]
  · rintro ⟨before, after, hline, hfirst, hafter⟩
    refine ⟨value ++ '&' :: after, afterSid_eq_some_iff.mpr ⟨before, ?_, hfirst⟩,
      upToLastAmp_eq_some_iff.mpr ⟨after, rfl, hafter⟩⟩
    rw [hline, List.append_assoc _ value]

theorem match_eq_none_iff
    {line : List Char} :
    (afterSid line).bind upToLastAmp = none ↔ Undelimited line := by
  rw [Option.bind_eq_none_iff]
  constructor
  · intro h before value after hline
    rw [List.append_assoc _ value] at hline
    obtain ⟨first, rest, hfound, hfirst, hsuffix⟩ := exists_firstSid hline
    have hnone := h rest (afterSid_eq_some_iff.mpr ⟨first, hfound, hfirst⟩)
    refine upToLastAmp_eq_none_iff.mp hnone (hsuffix.subset ?_)
    simp
  · intro h rest hrest
    obtain ⟨before, hline, -⟩ := afterSid_eq_some_iff.mp hrest
    rw [upToLastAmp_eq_none_iff]
    intro hamp
    obtain ⟨value, after, rfl⟩ := List.append_of_mem hamp
    refine h before value after ?_
    rw [hline, List.append_assoc _ value]

end Patterns

section Links

/-- One line of the link shows the value, and no other line matches. -/
def ShownOnce
    (link value : List Char) :
    Prop :=
  ∃ before line after,
    link.splitOn '\n' = before ++ line :: after ∧ Delimited line value ∧
    ∀ other ∈ before ++ after, Undelimited other

theorem findallSid_eq_singleton_iff
    {link value : List Char} :
    findallSid (String.ofList link) = [String.ofList value] ↔ ShownOnce link value := by
  have hmatch : ∀ line,
      ((afterSid line).bind upToLastAmp).map String.ofList = none ↔ Undelimited line := by
    intro line
    rw [Option.map_eq_none_iff, match_eq_none_iff]
  have hvalue : ∀ line,
      ((afterSid line).bind upToLastAmp).map String.ofList = some (String.ofList value) ↔
        Delimited line value := by
    intro line
    rw [Option.map_eq_some_iff, ← match_eq_some_iff]
    constructor
    · rintro ⟨found, hfound, hsame⟩
      rw [hfound, String.ofList_injective hsame]
    · intro hfound
      exact ⟨value, hfound, rfl⟩
  rw [findallSid, String.toList_ofList, List.filterMap_eq_cons_iff]
  simp only [List.filterMap_eq_nil_iff, hmatch, hvalue]
  constructor
  · rintro ⟨before, line, after, hlines, hbefore, hline, hafter⟩
    refine ⟨before, line, after, hlines, hline, fun other hother => ?_⟩
    rcases List.mem_append.mp hother with hother | hother
    · exact hbefore other hother
    · exact hafter other hother
  · rintro ⟨before, line, after, hlines, hline, hothers⟩
    exact ⟨before, line, after, hlines, fun x hx => hothers x (List.mem_append_left _ hx),
      hline, fun x hx => hothers x (List.mem_append_right _ hx)⟩

/-- Without line breaks the link is its only line. -/
theorem shownOnce_iff_of_oneLine
    {link value : List Char}
    (hline : '\n' ∉ link) :
    ShownOnce link value ↔ Delimited link value := by
  have hlines : link.splitOn '\n' = [link] := by
    refine List.splitOnP_eq_singleton (fun c hc => ?_)
    refine beq_eq_false_iff_ne.mpr fun hbreak => hline ?_
    rwa [← hbreak]
  rw [ShownOnce, hlines]
  constructor
  · rintro ⟨before, line, after, h, hvalue, -⟩
    cases before with
    | nil =>
        cases h
        exact hvalue
    | cons other before =>
        have htail := (List.cons.inj h).2
        cases before <;> cases htail
  · intro hvalue
    exact ⟨[], link, [], rfl, hvalue, by simp⟩

/-- A link whose query has exactly one parameter `SID`: the part in front of the `?`,
the parameters in front of it, its value and the parameters behind it. -/
structure SidLink where
  base : List Char
  front : List (List Char)
  value : List Char
  back : List (List Char)
  base_plain : '?' ∉ base
  parameters : ∀ p ∈ value :: (front ++ back), '&' ∉ p
  unique : ∀ p ∈ front ++ back, ¬sidKey <+: p

namespace SidLink

/-- What stands in front of the parameter. -/
def ahead
    (link : SidLink) :
    List Char :=
  link.base ++ '?' :: link.front.flatMap (· ++ ['&'])

def text
    (link : SidLink) :
    List Char :=
  link.ahead ++ sidKey ++ link.value ++ link.back.flatMap ('&' :: ·)

/-- When the key does not occur in front of the parameter, the value is delimited by
the first and only parameter behind it. -/
theorem delimited_iff
    {link : SidLink}
    (hfirst : FirstSid link.text link.ahead) :
    Delimited link.text link.value ↔ link.back.length = 1 := by
  constructor
  · rintro ⟨before, after, htext, hbefore, hafter⟩
    have hahead : link.ahead.length = before.length := by
      refine Nat.le_antisymm ?_ ?_
      · refine hfirst before (link.value ++ '&' :: after) ?_
        rw [htext, List.append_assoc _ link.value]
      · refine hbefore link.ahead (link.value ++ link.back.flatMap ('&' :: ·)) ?_
        rw [text, List.append_assoc _ link.value]
    rw [text] at htext
    simp only [List.append_assoc] at htext
    obtain ⟨-, htail⟩ := List.append_inj htext hahead
    have hback := List.append_cancel_left (List.append_cancel_left htail)
    match hparameters : link.back with
    | [] =>
        rw [hparameters] at hback
        cases hback
    | [p] =>
        rfl
    | p :: q :: back =>
        rw [hparameters] at hback
        have hmem : '&' ∈ p ++ (q :: back).flatMap ('&' :: ·) := by simp
        rw [List.flatMap_cons, List.cons_append] at hback
        rw [(List.cons.inj hback).2] at hmem
        exact absurd hmem hafter
  · intro hlength
    obtain ⟨p, hback⟩ := List.length_eq_one_iff.mp hlength
    refine ⟨link.ahead, p, ?_, hfirst, link.parameters p ?_⟩
    · rw [text, hback, List.flatMap_singleton]
    · simp [hback]

end SidLink

end Links

section Login

variable {links : List (String × String) → List String} {self : Parser}

/-- The login form is filled in. -/
def FilledIn
    (self : Parser) :
    Prop :=
  self.username.length ≠ 0 ∧ self.password.length ≠ 0 ∧ self.contestId.length ≠ 0

/-- `login` returns with this session id. -/
def StoresSid
    (links : List (String × String) → List String)
    (self : Parser)
    (value : String) :
    Prop :=
  ∃ self', (self.login links).result = .ok self' ∧ self'.sid = some value

theorem storesSid_iff
    (hfilled : FilledIn self)
    {linkText : String}
    {rest : List String}
    (hlinks : links self.payload = linkText :: rest)
    (value : String) :
    StoresSid links self value ↔ findallSid linkText = [value] := by
  obtain ⟨husername, hpassword, hcontest⟩ := hfilled
  have hlogin : (self.username.length ≠ 0 && self.password.length ≠ 0) = true := by
    rw [Bool.and_eq_true]
    exact ⟨decide_eq_true husername, decide_eq_true hpassword⟩
  have hcontest' : decide (self.contestId.length ≠ 0) = true :=
    decide_eq_true hcontest
  rw [StoresSid, Parser.login, hlogin, hcontest', hlinks]
  rcases hfound : findallSid linkText with _ | ⟨sid, _ | ⟨other, more⟩⟩
  · refine iff_of_false ?_ (by simp)
    rintro ⟨self', h, -⟩
    simp only [hfound] at h
    cases h
  · constructor
    · rintro ⟨self', h, hsid⟩
      simp only [hfound] at h
      cases h
      cases hsid
      rfl
    · intro h
      cases h
      simp only [hfound]
      exact ⟨_, rfl, rfl⟩
  · refine iff_of_false ?_ (by simp)
    rintro ⟨self', h, -⟩
    simp only [hfound] at h
    cases h

/-- The value of the parameter is stored exactly when one line of the link shows it and
no other line matches. In a link of one line, with the key at no place in front of the
parameter, that is the case exactly when one more parameter follows. -/
theorem login_stores_sid_iff
    (links : List (String × String) → List String)
    (self : Parser)
    (link : SidLink)
    (rest : List String)
    (hfilled : FilledIn self)
    (hlinks : links self.payload = String.ofList link.text :: rest) :
    (StoresSid links self (String.ofList link.value) ↔
      ShownOnce link.text link.value) ∧
    ('\n' ∉ link.text → FirstSid link.text link.ahead →
      (StoresSid links self (String.ofList link.value) ↔ link.back.length = 1)) := by
  have hiff : StoresSid links self (String.ofList link.value) ↔
      ShownOnce link.text link.value := by
    rw [storesSid_iff hfilled hlinks, findallSid_eq_singleton_iff]
  refine ⟨hiff, fun hline hfirst => ?_⟩
  rw [hiff, shownOnce_iff_of_oneLine hline, link.delimited_iff hfirst]

/-- A key stands behind a text without its first character. -/
theorem firstSid_of_not_mem
    {before rest : List Char}
    (h : 'S' ∉ before) :
    FirstSid (before ++ rest) before := by
  intro earlier tail hline
  by_contra hshort
  have hlt : earlier.length < before.length := Nat.lt_of_not_le hshort
  have hget : (before ++ rest)[earlier.length]? = some 'S' := by
    rw [hline, List.append_assoc, List.getElem?_append_right (Nat.le_refl _),
      Nat.sub_self]
    rfl
  rw [List.getElem?_append_left hlt] at hget
  exact h (List.mem_of_getElem? hget)

/-- The link of the server in use, with a session id and further parameters. -/
def clientLink
    (value : String)
    (back : List String)
    (hvalue : '&' ∉ value.toList)
    (hback : ∀ p ∈ back.map String.toList, '&' ∉ p ∧ ¬sidKey <+: p) :
    SidLink where
  base := "https://ejudge.atp-fivt.org/client".toList
  front := []
  value := value.toList
  back := back.map String.toList
  base_plain := by decide
  parameters := by
    intro p hp
    rcases List.mem_cons.mp hp with rfl | hp
    · exact hvalue
    · exact (hback p hp).1
  unique := fun p hp => (hback p hp).2

/-- One parameter follows the session id. -/
def oneBehind : SidLink :=
  clientLink "0123" ["action=2"] (by decide) (by decide)

/-- Two parameters follow the session id. -/
def twoBehind : SidLink :=
  clientLink "0123" ["action=2", "lt=1"] (by decide) (by decide)

theorem filledIn_student :
    FilledIn (newParser (optionsFor 1 0) none) := by
  have hlogin : "student".length ≠ 0 := by decide
  have hpassword : "secret".length ≠ 0 := by decide
  have hcontest : "1".length ≠ 0 := by decide
  exact ⟨hlogin, hpassword, hcontest⟩

theorem login_stores_sid_oneBehind :
    StoresSid (fun _ => [String.ofList oneBehind.text]) (newParser (optionsFor 1 0) none)
      "0123" := by
  have hahead : 'S' ∉ oneBehind.ahead := by decide
  have hfirst : FirstSid oneBehind.text oneBehind.ahead := by
    rw [SidLink.text, List.append_assoc, List.append_assoc]
    exact firstSid_of_not_mem hahead
  exact ((login_stores_sid_iff (fun _ => [String.ofList oneBehind.text])
    (newParser (optionsFor 1 0) none) oneBehind [] filledIn_student rfl).2 (by decide)
    hfirst).mpr rfl

/-- With two parameters behind it the session id is stored together with the first of
them. -/
theorem not_login_stores_sid_twoBehind :
    StoresSid (fun _ => [String.ofList twoBehind.text]) (newParser (optionsFor 1 0) none)
      "0123&action=2" ∧
    ¬StoresSid (fun _ => [String.ofList twoBehind.text])
      (newParser (optionsFor 1 0) none) (String.ofList twoBehind.value) := by
  have hfound : findallSid (String.ofList twoBehind.text) = ["0123&action=2"] := by
    decide
  have hstored : ∀ value, StoresSid (fun _ => [String.ofList twoBehind.text])
      (newParser (optionsFor 1 0) none) value ↔ ["0123&action=2"] = [value] := by
    intro value
    rw [← hfound]
    exact storesSid_iff filledIn_student rfl value
  refine ⟨(hstored _).mpr rfl, fun h => ?_⟩
  exact absurd ((hstored _).mp h) (by decide)

end Login

end EjudgeParser
end EjudgeExporter
end OsSeminars
