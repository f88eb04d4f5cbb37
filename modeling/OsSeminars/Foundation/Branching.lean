import Mathlib.Algebra.Order.Ring.Nat
import Mathlib.Algebra.Order.BigOperators.Group.List
import Mathlib.Data.List.Nodup
import Mathlib.Data.List.Perm.Subperm
import Mathlib.Data.Nat.Choose.Basic

/-!
# Foundation: populations that branch

One member of a population at a time goes through a round: it splits into an original
and a copy, or goes on alone as the original. The path of a member says at which of its
rounds it was the copy.

Whatever the order in which the members move, no two paths begin one word (`Apart`), and
if no member has ever gone on alone, then every word that is long enough begins with a
path (`Covering`). So the numbers of members are those of a population that moves in
lockstep: at most and at least `2 ^ d`, and a binomial coefficient for the members that
were a copy a given number of times.
-/

namespace OsSeminars
namespace Foundation
namespace Branching

/-- At which of its rounds a member was the copy. -/
abbrev Path : Type :=
  List Bool

/-- The number of the members whose path begins a word. -/
def towards
    (paths : List Path)
    (word : Path) :
    Nat :=
  paths.countP fun path => path.isPrefixOf word

/-- No two paths begin one word. -/
def Apart
    (paths : List Path) :
    Prop :=
  ∀ word, towards paths word ≤ 1

/-- Every word that no path is longer than begins with a path. -/
def Covering
    (paths : List Path) :
    Prop :=
  ∀ word, (∀ path ∈ paths, path.length ≤ word.length) → 1 ≤ towards paths word

/-- All words of a length. -/
def words : Nat → List Path
  | 0 => [[]]
  | d + 1 => (words d).map (List.cons false) ++ (words d).map (List.cons true)

section Words

theorem length_words
    (d : Nat) :
    (words d).length = 2 ^ d := by
  induction d with
  | zero =>
      rfl
  | succ d ih =>
      rw [words, List.length_append, List.length_map, List.length_map, ih, Nat.pow_succ]
      omega

theorem mem_words_iff
    {d : Nat}
    {word : Path} :
    word ∈ words d ↔ word.length = d := by
  induction d generalizing word with
  | zero =>
      rw [words, List.mem_singleton, List.length_eq_zero_iff]
  | succ d ih =>
      cases word with
      | nil =>
          simp [words]
      | cons b word =>
          cases b
          · simp [words, ih]
          · simp [words, ih]

theorem nodup_words
    (d : Nat) :
    (words d).Nodup := by
  induction d with
  | zero =>
      exact List.nodup_singleton _
  | succ d ih =>
      refine List.Nodup.append (ih.map List.cons_injective) (ih.map List.cons_injective) ?_
      intro word hfalse htrue
      obtain ⟨_, _, rfl⟩ := List.mem_map.mp hfalse
      obtain ⟨_, _, hne⟩ := List.mem_map.mp htrue
      cases hne

/-- Pascal's rule on the first letter. -/
theorem countP_words
    (d copies : Nat) :
    (words d).countP (fun word => word.count true = copies) = d.choose copies := by
  induction d generalizing copies with
  | zero =>
      cases copies with
      | zero =>
          rfl
      | succ copies =>
          rfl
  | succ d ih =>
      rw [words, List.countP_append, List.countP_map, List.countP_map]
      cases copies with
      | zero =>
          have hnone : (words d).countP
              ((fun word : Path => decide (word.count true = 0)) ∘ List.cons true) = 0 := by
            rw [List.countP_eq_zero]
            intro word _
            simp
          rw [hnone, Nat.choose_zero_right, ← Nat.choose_zero_right d, ← ih 0]
          simp [Function.comp_def]
      | succ copies =>
          rw [Nat.choose_succ_succ', Nat.add_comm, ← ih copies, ← ih (copies + 1)]
          simp [Function.comp_def]

end Words

section Counting

variable {paths paths' rest : List Path} {path word : Path} {d : Nat}

theorem towards_cons :
    towards (path :: rest) word =
      towards rest word + if path.isPrefixOf word then 1 else 0 :=
  List.countP_cons

theorem towards_perm
    (h : paths.Perm paths') :
    towards paths word = towards paths' word :=
  h.countP_eq _

theorem Apart.perm
    (happart : Apart paths)
    (h : paths.Perm paths') :
    Apart paths' := by
  intro word
  rw [← towards_perm h]
  exact happart word

theorem Covering.perm
    (hcovering : Covering paths)
    (h : paths.Perm paths') :
    Covering paths' := by
  intro word hword
  rw [← towards_perm h]
  exact hcovering word fun path hpath => hword path (h.mem_iff.mp hpath)

/-- A path that has got longer begins fewer words. -/
theorem isPrefixOf_of_snoc
    {b : Bool}
    (h : (path ++ [b]).isPrefixOf word = true) :
    path.isPrefixOf word = true := by
  rw [List.isPrefixOf_iff_prefix] at h ⊢
  exact (List.prefix_append path [b]).trans h

/-- A word that is longer than the path goes on in one of two ways. -/
theorem snoc_of_isPrefixOf
    (h : path.isPrefixOf word = true)
    (hlength : path.length < word.length) :
    (path ++ [false]).isPrefixOf word = true ∨ (path ++ [true]).isPrefixOf word = true := by
  obtain ⟨tail, rfl⟩ := List.isPrefixOf_iff_prefix.mp h
  cases tail with
  | nil =>
      simp at hlength
  | cons b tail =>
      cases b
      · left
        rw [List.isPrefixOf_iff_prefix]
        exact ⟨tail, by simp⟩
      · right
        rw [List.isPrefixOf_iff_prefix]
        exact ⟨tail, by simp⟩

/-- The original and the copy never lead towards one word. -/
theorem snoc_disjoint
    (hfalse : (path ++ [false]).isPrefixOf word = true)
    (htrue : (path ++ [true]).isPrefixOf word = true) :
    False := by
  obtain ⟨tail, rfl⟩ := List.isPrefixOf_iff_prefix.mp hfalse
  obtain ⟨tail', htail⟩ := List.isPrefixOf_iff_prefix.mp htrue
  rw [List.append_assoc, List.append_assoc] at htail
  have hletter := List.append_cancel_left htail
  cases hletter

/-- A round of one member that splits leads no further member towards a word. -/
theorem towards_split_le :
    towards ((path ++ [false]) :: (path ++ [true]) :: rest) word ≤
      towards (path :: rest) word := by
  rw [towards_cons, towards_cons, towards_cons]
  by_cases hfalse : (path ++ [false]).isPrefixOf word = true
  · have htrue : ¬ (path ++ [true]).isPrefixOf word = true :=
      fun htrue => snoc_disjoint hfalse htrue
    rw [if_pos hfalse, if_neg htrue, if_pos (isPrefixOf_of_snoc hfalse)]
  · by_cases htrue : (path ++ [true]).isPrefixOf word = true
    · rw [if_neg hfalse, if_pos htrue, if_pos (isPrefixOf_of_snoc htrue)]
    · rw [if_neg hfalse, if_neg htrue]
      omega

/-- Where the word is long enough, it loses none either. -/
theorem le_towards_split
    (hlength : path.length < word.length) :
    towards (path :: rest) word ≤
      towards ((path ++ [false]) :: (path ++ [true]) :: rest) word := by
  rw [towards_cons, towards_cons, towards_cons]
  by_cases hpath : path.isPrefixOf word = true
  · rw [if_pos hpath]
    rcases snoc_of_isPrefixOf hpath hlength with hfalse | htrue
    · rw [if_pos hfalse]
      omega
    · rw [if_pos htrue]
      omega
  · rw [if_neg hpath]
    omega

end Counting

section Rounds

variable {paths rest : List Path} {path : Path}

theorem apart_first :
    Apart [[]] := by
  intro word
  rw [towards]
  exact List.countP_le_length

theorem covering_first :
    Covering [[]] := by
  intro word _
  simp [towards]

/-- A member splits. -/
theorem Apart.split
    (h : Apart (path :: rest)) :
    Apart ((path ++ [false]) :: (path ++ [true]) :: rest) :=
  fun word => towards_split_le.trans (h word)

/-- A member goes on alone. -/
theorem Apart.alone
    (h : Apart (path :: rest)) :
    Apart ((path ++ [false]) :: rest) := by
  intro word
  have hsplit := h.split word
  rw [towards_cons, towards_cons] at hsplit
  rw [towards_cons]
  omega

theorem Covering.split
    (h : Covering (path :: rest)) :
    Covering ((path ++ [false]) :: (path ++ [true]) :: rest) := by
  intro word hword
  have hlength : path.length < word.length := by
    have hfalse := hword (path ++ [false]) List.mem_cons_self
    rw [List.length_append, List.length_singleton] at hfalse
    omega
  refine (h word ?_).trans (le_towards_split hlength)
  intro q hq
  rcases List.mem_cons.mp hq with rfl | hrest
  · exact Nat.le_of_lt hlength
  · exact hword q (List.mem_cons_of_mem _ (List.mem_cons_of_mem _ hrest))

end Rounds

section Numbers

variable {paths : List Path} {d : Nat}

/-- The word of a given length that follows a path and then its originals. -/
def padded
    (d : Nat)
    (path : Path) :
    Path :=
  path ++ List.replicate (d - path.length) false

theorem length_padded
    {path : Path}
    (h : path.length ≤ d) :
    (padded d path).length = d := by
  rw [padded, List.length_append, List.length_replicate]
  omega

/-- Members that have been through few rounds are few. -/
theorem Apart.length_le
    (h : Apart paths)
    (hd : ∀ path ∈ paths, path.length ≤ d) :
    paths.length ≤ 2 ^ d := by
  have hnodup : (paths.map (padded d)).Nodup := by
    rw [List.nodup_iff_count_le_one]
    intro word
    rw [List.count, List.countP_map]
    refine (List.countP_mono_left ?_).trans (h word)
    intro path _ hpadded
    rw [Function.comp_apply, beq_iff_eq] at hpadded
    rw [List.isPrefixOf_iff_prefix, ← hpadded]
    exact List.prefix_append _ _
  have hsubset : paths.map (padded d) ⊆ words d := by
    intro word hword
    obtain ⟨path, hpath, rfl⟩ := List.mem_map.mp hword
    exact mem_words_iff.mpr (length_padded (hd path hpath))
  have hlength := (hnodup.subperm hsubset).length_le
  rwa [List.length_map, length_words] at hlength

/-- Where no member has gone on alone, members that have been through many rounds are
many. -/
theorem Covering.le_length
    (h : Covering paths)
    (hd : ∀ path ∈ paths, d ≤ path.length) :
    2 ^ d ≤ paths.length := by
  have hsubset : words d ⊆ paths.map (List.take d) := by
    intro word hword
    have hword' := mem_words_iff.mp hword
    -- a continuation of the word that is longer than every path
    have hlong : ∀ path ∈ paths,
        path.length ≤ (word ++ List.replicate (paths.map List.length).sum false).length := by
      intro path hpath
      have hmem : path.length ∈ paths.map List.length := List.mem_map_of_mem hpath
      have hle := List.le_sum_of_mem hmem
      rw [List.length_append, List.length_replicate]
      omega
    obtain ⟨path, hpath, hprefix⟩ := List.countP_pos_iff.mp (h _ hlong)
    refine List.mem_map.mpr ⟨path, hpath, ?_⟩
    have htake := List.prefix_iff_eq_take.mp
      ((List.take_prefix d path).trans (List.isPrefixOf_iff_prefix.mp hprefix))
    have hmin : min d path.length = word.length := by
      have := hd path hpath
      omega
    rw [htake, List.length_take, hmin, List.take_left']
    rfl
  have hlength := ((nodup_words d).subperm hsubset).length_le
  rwa [length_words, List.length_map] at hlength

/-- After the same number of rounds of everyone, every word is the path of one member. -/
theorem perm_words
    (happart : Apart paths)
    (hcovering : Covering paths)
    (hd : ∀ path ∈ paths, path.length = d) :
    paths.Perm (words d) := by
  have hnodup : paths.Nodup := by
    rw [List.nodup_iff_count_le_one]
    intro word
    refine (List.countP_mono_left ?_).trans (happart word)
    intro path _ hpath
    rw [beq_iff_eq.mp hpath]
    exact List.isPrefixOf_iff_prefix.mpr List.prefix_rfl
  refine (List.perm_ext_iff_of_nodup hnodup (nodup_words d)).mpr fun word => ?_
  rw [mem_words_iff]
  constructor
  · exact hd word
  · intro hword
    have hlong : ∀ path ∈ paths, path.length ≤ word.length := by
      intro path hpath
      rw [hd path hpath, hword]
    obtain ⟨path, hpath, hprefix⟩ := List.countP_pos_iff.mp (hcovering word hlong)
    have heq := (List.isPrefixOf_iff_prefix.mp hprefix).eq_of_length (by
      rw [hd path hpath, hword])
    rwa [← heq]

/-- The generations are then of the sizes of the binomial coefficients. -/
theorem countP_copies
    (happart : Apart paths)
    (hcovering : Covering paths)
    (hd : ∀ path ∈ paths, path.length = d)
    (copies : Nat) :
    paths.countP (fun path => path.count true = copies) = d.choose copies := by
  rw [(perm_words happart hcovering hd).countP_eq, countP_words]

end Numbers

end Branching
end Foundation
end OsSeminars
