import Mathlib.Data.List.MinMax
import Mathlib.Data.List.Sort

/-!
# Foundation: the first of a kind in a sorted list

A stable sort by a decreasing key keeps the order of entries with equal keys. The
first entry of a kind in the sorted list is therefore the entry of that kind with
the greatest key, and among those the one which came first.
-/

namespace OsSeminars
namespace Foundation
namespace StableSort

universe u v

variable {α : Type u} {β : Type v} [LinearOrder β]

/-- `sorted(xs, key=key, reverse=True)`. -/
def sortedReverse
    (key : α → β)
    (xs : List α) :
    List α :=
  xs.insertionSort (fun a b => key b ≤ key a)

/-- The entry of a kind with the greatest key, the first one if there are several. -/
def greatest
    (key : α → β)
    (kind : α → Bool)
    (xs : List α) :
    Option α :=
  (xs.filter kind).argmax key

variable {key : α → β}

theorem greatest_eq_none_iff
    {kind : α → Bool}
    {xs : List α} :
    greatest key kind xs = none ↔ ∀ x ∈ xs, kind x = false := by
  rw [greatest, List.argmax_eq_none, List.filter_eq_nil_iff]
  simp only [Bool.not_eq_true]

/-- Keys do not increase along the sorted list. -/
theorem pairwise_sortedReverse
    (key : α → β)
    (xs : List α) :
    (sortedReverse key xs).Pairwise (fun a b => key b ≤ key a) := by
  have htotal : Std.Total (fun a b : α => key b ≤ key a) :=
    ⟨fun a b => le_total (key b) (key a)⟩
  have htrans : IsTrans α (fun a b : α => key b ≤ key a) :=
    ⟨fun a b c hab hbc => le_trans hbc hab⟩
  exact List.pairwise_insertionSort _ xs

/-- An inserted entry becomes the first of its kind unless there is one with a
greater key. -/
theorem head?_filter_orderedInsert
    (kind : α → Bool)
    (a : α)
    {xs : List α}
    (hsorted : xs.Pairwise (fun a b => key b ≤ key a)) :
    ((xs.orderedInsert (fun a b => key b ≤ key a) a).filter kind).head? =
      if kind a then
        match (xs.filter kind).head? with
        | none => some a
        | some c => if key a < key c then some c else some a
      else
        (xs.filter kind).head? := by
  induction xs with
  | nil =>
      cases ha : kind a <;> simp [ha]
  | cons b xs ih =>
      obtain ⟨hb, hxs⟩ := List.pairwise_cons.mp hsorted
      by_cases hba : key b ≤ key a
      · rw [List.orderedInsert_cons, if_pos hba]
        cases ha : kind a with
        | false =>
            simp [ha]
        | true =>
            -- The list is sorted, so its first entry of the kind is not above `b`.
            have hfirst : ∀ c, ((b :: xs).filter kind).head? = some c →
                ¬key a < key c := by
              intro c hc
              have hmem : c ∈ b :: xs :=
                (List.mem_filter.mp (List.mem_of_head? hc)).1
              rcases List.mem_cons.mp hmem with rfl | hmem
              · exact not_lt.mpr hba
              · exact not_lt.mpr (le_trans (hb c hmem) hba)
            rw [List.filter_cons_of_pos ha, List.head?_cons, if_pos rfl]
            cases hhead : ((b :: xs).filter kind).head? with
            | none => rfl
            | some c =>
                change some a = if key a < key c then some c else some a
                rw [if_neg (hfirst c hhead)]
      · rw [List.orderedInsert_cons, if_neg hba]
        cases hkb : kind b with
        | true =>
            simp [hkb, not_le.mp hba]
        | false =>
            have hskip : ¬kind b = true := by simp [hkb]
            rw [List.filter_cons_of_neg hskip, List.filter_cons_of_neg hskip]
            exact ih hxs

/-- The first entry of a kind in the sorted list has the greatest key of its kind. -/
theorem head?_filter_sortedReverse
    (key : α → β)
    (kind : α → Bool)
    (xs : List α) :
    ((sortedReverse key xs).filter kind).head? = greatest key kind xs := by
  induction xs with
  | nil =>
      rfl
  | cons a xs ih =>
      have hinsert := head?_filter_orderedInsert kind a (pairwise_sortedReverse key xs)
      rw [ih, greatest] at hinsert
      rw [greatest]
      cases ha : kind a with
      | false =>
          rw [List.filter_cons_of_neg (by simp [ha])]
          rw [ha] at hinsert
          exact hinsert
      | true =>
          rw [List.filter_cons_of_pos ha, List.argmax_cons]
          rw [ha, if_pos rfl] at hinsert
          refine Eq.trans hinsert ?_
          cases (xs.filter kind).argmax key <;> rfl

/-- The greatest entry of a kind exceeds those of its kind in front of it and is not
exceeded by those behind it. -/
theorem exists_split_of_greatest
    {kind : α → Bool}
    {xs : List α}
    {x : α}
    (h : greatest key kind xs = some x) :
    ∃ before after, xs = before ++ x :: after ∧ kind x = true ∧
      (∀ y ∈ before, kind y = true → key y < key x) ∧
      (∀ y ∈ after, kind y = true → key y ≤ key x) := by
  rw [greatest] at h
  induction xs with
  | nil =>
      cases h
  | cons a xs ih =>
      cases ha : kind a with
      | false =>
          rw [List.filter_cons_of_neg (by simp [ha])] at h
          obtain ⟨before, after, rfl, hx, hbefore, hafter⟩ := ih h
          refine ⟨a :: before, after, rfl, hx, fun y hy hkind => ?_, hafter⟩
          rcases List.mem_cons.mp hy with rfl | hy
          · rw [ha] at hkind
            cases hkind
          · exact hbefore y hy hkind
      | true =>
          rw [List.filter_cons_of_pos ha, List.argmax_cons] at h
          cases hrest : (xs.filter kind).argmax key with
          | none =>
              rw [hrest] at h
              cases h
              refine ⟨[], xs, rfl, ha, by simp, fun y hy hkind => ?_⟩
              have hmem : y ∈ xs.filter kind := List.mem_filter.mpr ⟨hy, hkind⟩
              rw [List.argmax_eq_none.mp hrest] at hmem
              cases hmem
          | some c =>
              have hchoice : (if key a < key c then some c else some a) = some x := by
                rw [hrest] at h
                exact h
              split_ifs at hchoice with hlt
              · cases hchoice
                obtain ⟨before, after, rfl, hx, hbefore, hafter⟩ := ih hrest
                refine ⟨a :: before, after, rfl, hx, fun y hy hkind => ?_, hafter⟩
                rcases List.mem_cons.mp hy with rfl | hy
                · exact hlt
                · exact hbefore y hy hkind
              · cases hchoice
                refine ⟨[], xs, rfl, ha, by simp, fun y hy hkind => ?_⟩
                have hle : key y ≤ key c :=
                  List.le_of_mem_argmax (List.mem_filter.mpr ⟨hy, hkind⟩) hrest
                exact le_trans hle (not_lt.mp hlt)

end StableSort
end Foundation
end OsSeminars
