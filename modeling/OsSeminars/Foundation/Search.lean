import Mathlib.Data.List.Find

/-!
# Foundation: leftmost occurrences

`firstFrom` is the leftmost position with a property in a window of positions.
Searching again behind each result enumerates the positions with the property:
a search started at `q` extends the list of all positions before `q` by exactly
one element, and a search without result completes it.

`occursAt` is the property that a text contains a given word at a position. For
a finite text continued with a filler it agrees with the prefix relation, both
for words inside the text and for words that do not contain the filler.
-/

namespace OsSeminars
namespace Foundation

universe u

section Leftmost

variable (p : Nat → Bool)

/-- The leftmost of `count` positions from `start` on that has the property. -/
def firstFrom (start count : Nat) : Option Nat :=
  (List.range' start count).find? p

/-- All positions before `n` with the property, in increasing order. -/
def positionsBelow (n : Nat) : List Nat :=
  (List.range n).filter p

variable {p} {start count i n m : Nat}

theorem firstFrom_eq_some_iff :
    firstFrom p start count = some i ↔
      p i = true ∧ start ≤ i ∧ i < start + count ∧
      ∀ j, start ≤ j → j < i → p j = false := by
  simp [firstFrom, and_assoc]

theorem firstFrom_eq_none_iff :
    firstFrom p start count = none ↔
      ∀ j, start ≤ j → j < start + count → p j = false := by
  simp [firstFrom]

/-- A search looks at nothing but its window. -/
theorem firstFrom_congr
    {q : Nat → Bool}
    (h : ∀ j, start ≤ j → j < start + count → p j = q j) :
    firstFrom p start count = firstFrom q start count := by
  unfold firstFrom
  refine List.find?_congr (fun j hj => ?_)
  obtain ⟨hlow, hhigh⟩ := List.mem_range'_1.mp hj
  exact h j hlow hhigh

theorem mem_positionsBelow :
    i ∈ positionsBelow p n ↔ i < n ∧ p i = true := by
  simp [positionsBelow]

theorem positionsBelow_increasing
    (p : Nat → Bool)
    (n : Nat) :
    (positionsBelow p n).Pairwise (· < ·) :=
  List.pairwise_lt_range.filter p

/-- Positions without the property do not change the list. -/
theorem positionsBelow_eq
    (hle : n ≤ m)
    (hnone : ∀ j, n ≤ j → j < m → p j = false) :
    positionsBelow p m = positionsBelow p n := by
  obtain ⟨k, rfl⟩ := Nat.exists_eq_add_of_le hle
  induction k with
  | zero =>
      rfl
  | succ k ih =>
      have hlast : p (n + k) = false := hnone (n + k) (by omega) (by omega)
      rw [← Nat.add_assoc, positionsBelow, List.range_succ, List.filter_append]
      simp only [List.filter_cons, hlast, List.filter_nil]
      have hprev := ih (by omega) (fun j hj hjk => hnone j hj (by omega))
      simpa [positionsBelow] using hprev

/-- A search finds the next element of the list of all positions. -/
theorem positionsBelow_of_firstFrom
    (h : firstFrom p start count = some i) :
    positionsBelow p (i + 1) = positionsBelow p start ++ [i] := by
  obtain ⟨hi, hle, -, hbefore⟩ := firstFrom_eq_some_iff.mp h
  rw [← positionsBelow_eq hle hbefore]
  simp [positionsBelow, List.range_succ, hi]

/-- A search without result completes the list of all positions. -/
theorem positionsBelow_of_firstFrom_none
    (h : firstFrom p start count = none)
    (hle : start ≤ n)
    (hbeyond : ∀ j, start + count ≤ j → j < n → p j = false) :
    positionsBelow p n = positionsBelow p start := by
  refine positionsBelow_eq hle (fun j hj hjn => ?_)
  by_cases hin : j < start + count
  · exact firstFrom_eq_none_iff.mp h j hj hin
  · exact hbeyond j (by omega) hjn

end Leftmost

section Occurrences

variable {α : Type u} [DecidableEq α]

/-- The word `needle` stands in the text at position `i`. -/
def occursAt
    (text : Nat → α) :
    List α → Nat → Bool
  | [], _ => true
  | x :: needle, i => decide (text i = x) && occursAt text needle (i + 1)

theorem occursAt_iff
    {text : Nat → α}
    {needle : List α}
    {i : Nat} :
    occursAt text needle i = true ↔
      ∀ k (h : k < needle.length), text (i + k) = needle[k] := by
  induction needle generalizing i with
  | nil =>
      simp [occursAt]
  | cons x needle ih =>
      simp only [occursAt, Bool.and_eq_true, decide_eq_true_eq, ih]
      constructor
      · rintro ⟨hhead, htail⟩ k hk
        cases k with
        | zero => simpa using hhead
        | succ k =>
            have hstep := htail k (by simpa using hk)
            simpa [Nat.add_assoc, Nat.add_comm 1 k] using hstep
      · intro hall
        refine ⟨hall 0 (Nat.succ_pos _), fun k hk => ?_⟩
        have hstep := hall (k + 1) (by simpa using hk)
        simpa [Nat.add_assoc, Nat.add_comm 1 k] using hstep

/-- A finite text, continued with a filler. -/
def filled
    (text : List α)
    (filler : α)
    (i : Nat) : α :=
  (text[i]?).getD filler

omit [DecidableEq α] in
theorem prefix_drop_iff
    {text needle : List α}
    {i : Nat} :
    needle <+: text.drop i ↔
      ∀ k (h : k < needle.length), text[i + k]? = some needle[k] := by
  rw [List.prefix_iff_getElem?]
  simp [List.getElem?_drop]

/-- A word inside the text. -/
theorem occursAt_filled_of_le
    {text needle : List α}
    {filler : α}
    {i : Nat}
    (hle : i + needle.length ≤ text.length) :
    occursAt (filled text filler) needle i = true ↔
      needle <+: text.drop i := by
  rw [occursAt_iff, prefix_drop_iff]
  refine forall_congr' fun k => forall_congr' fun hk => ?_
  have hin : i + k < text.length := by omega
  simp [filled, hin]

/-- A word without the filler occurs nowhere beyond the text. -/
theorem occursAt_filled_of_not_mem
    {text needle : List α}
    {filler : α}
    {i : Nat}
    (hfiller : filler ∉ needle) :
    occursAt (filled text filler) needle i = true ↔
      needle <+: text.drop i := by
  rw [occursAt_iff, prefix_drop_iff]
  refine forall_congr' fun k => forall_congr' fun hk => ?_
  have hne : needle[k] ≠ filler := by
    intro heq
    exact hfiller (heq ▸ List.getElem_mem hk)
  cases hget : text[i + k]? with
  | none => simp [filled, hget, Ne.symm hne]
  | some x => simp [filled, hget]

end Occurrences

end Foundation
end OsSeminars
