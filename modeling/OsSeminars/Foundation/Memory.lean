import Mathlib.Logic.Function.Basic
import Mathlib.Data.List.Basic
import Mathlib.Tactic.Common

/-!
# Foundation: memories and blocks of cells

A memory gives every address a cell. Besides the store of a single cell there
are the block operations: `loadBlock` reads the cells of consecutive addresses
and `storeBlock` writes a list of cells to them.

The second half compares two ways to combine two blocks into a third one. The
forward way stores lane by lane and may read what it has stored before; the
block way loads both operands first. They agree unless the result starts
strictly inside an operand, behind its first cell.
-/

namespace OsSeminars
namespace Foundation

universe u

/-- The contents of all addresses. -/
abbrev Memory (α : Type u) : Type u :=
  Nat → α

namespace Memory

variable {α : Type u}

section Blocks

/-- Store one cell. -/
def store
    (m : Memory α)
    (p : Nat)
    (x : α) :
    Memory α :=
  Function.update m p x

/-- The `n` cells from address `p` on. -/
def loadBlock
    (m : Memory α)
    (p n : Nat) :
    List α :=
  (List.range n).map (fun i => m (p + i))

/-- Write the cells `xs` to the addresses from `p` on. -/
def storeBlock
    (m : Memory α)
    (p : Nat)
    (xs : List α) :
    Memory α :=
  fun q => if p ≤ q then xs[q - p]?.getD (m q) else m q

variable {m : Memory α} {p q n i : Nat} {x : α} {xs ys : List α}

@[simp] theorem store_same :
    store m p x p = x :=
  Function.update_self ..

theorem store_other
    (h : q ≠ p) :
    store m p x q = m q :=
  Function.update_of_ne h ..

@[simp] theorem length_loadBlock :
    (loadBlock m p n).length = n := by
  simp [loadBlock]

@[simp] theorem storeBlock_nil :
    storeBlock m p [] = m := by
  funext q
  simp [storeBlock]

/-- The cells of the block hold the list. -/
theorem storeBlock_inside
    (h : i < xs.length) :
    storeBlock m p xs (p + i) = xs[i] := by
  simp [storeBlock, h]

/-- A block store changes nothing outside its block. -/
theorem storeBlock_outside
    (h : q < p ∨ p + xs.length ≤ q) :
    storeBlock m p xs q = m q := by
  rcases h with h | h
  · simp [storeBlock, Nat.not_le.mpr h]
  · have hbeyond : xs.length ≤ q - p := by
      omega
    simp [storeBlock, List.getElem?_eq_none hbeyond]

/-- Two adjacent block stores are one block store. -/
theorem storeBlock_append :
    storeBlock m p (xs ++ ys) =
      storeBlock (storeBlock m p xs) (p + xs.length) ys := by
  funext q
  rcases Nat.lt_or_ge q p with hlow | hlow
  · rw [storeBlock_outside (Or.inl hlow), storeBlock_outside (Or.inl (by omega)),
      storeBlock_outside (Or.inl hlow)]
  · rcases Nat.lt_or_ge q (p + xs.length) with hmid | hmid
    · rw [storeBlock_outside (q := q) (p := p + xs.length) (Or.inl hmid)]
      have hin : q - p < xs.length := by
        omega
      simp [storeBlock, hlow, List.getElem?_append_left hin]
    · have hsplit : q - p - xs.length = q - (p + xs.length) := by
        omega
      rw [storeBlock, if_pos hlow, storeBlock, if_pos hmid,
        storeBlock_outside (Or.inr hmid),
        List.getElem?_append_right (by omega), hsplit]

/-- Loading a stored block gives the list back. -/
@[simp] theorem loadBlock_storeBlock :
    loadBlock (storeBlock m p xs) p xs.length = xs := by
  refine List.ext_getElem (by simp) (fun i hi _ => ?_)
  have hlen : i < xs.length := by
    simpa using hi
  simp [loadBlock, storeBlock_inside hlen]

theorem loadBlock_add
    (m : Memory α)
    (p n k : Nat) :
    loadBlock m p (n + k) = loadBlock m p n ++ loadBlock m (p + n) k := by
  simp [loadBlock, List.range_add, Function.comp_def, Nat.add_assoc]

end Blocks

section Combining

variable (f : α → α → α) (a b c : Nat)

/-- Combine the blocks at `a` and `b` into the block at `c`, lane by lane. -/
def combineForward
    (n : Nat)
    (m : Memory α) :
    Memory α :=
  (List.range n).foldl
    (fun m i => store m (c + i) (f (m (a + i)) (m (b + i)))) m

/-- Combine the blocks at `a` and `b` into the block at `c`, both loaded before
the store. -/
def combineBlock
    (n : Nat)
    (m : Memory α) :
    Memory α :=
  storeBlock m c (List.zipWith f (loadBlock m a n) (loadBlock m b n))

/-- The block of `n` cells at `c` starts inside the one at `a`, behind its first
cell. -/
def StartsInside
    (a c n : Nat) :
    Prop :=
  ∃ d, 0 < d ∧ d < n ∧ c = a + d

variable {f a b c} {m : Memory α} {n i q : Nat}

@[simp] theorem combineForward_zero :
    combineForward f a b c 0 m = m :=
  rfl

theorem combineForward_succ :
    combineForward f a b c (n + 1) m =
      store (combineForward f a b c n m) (c + n)
        (f (combineForward f a b c n m (a + n))
          (combineForward f a b c n m (b + n))) := by
  simp [combineForward, List.range_succ]

theorem combineForward_outside
    (h : q < c ∨ c + n ≤ q) :
    combineForward f a b c n m q = m q := by
  induction n with
  | zero =>
      simp
  | succ n ih =>
      have hne : q ≠ c + n := by
        omega
      rw [combineForward_succ, store_other hne]
      exact ih (by omega)

/-- A lane is combined from the memory that the lanes before it have left. -/
theorem combineForward_lane
    (h : i < n) :
    combineForward f a b c n m (c + i) =
      f (combineForward f a b c i m (a + i))
        (combineForward f a b c i m (b + i)) := by
  induction n with
  | zero =>
      omega
  | succ n ih =>
      rw [combineForward_succ]
      rcases Nat.lt_or_eq_of_le (Nat.le_of_lt_succ h) with hlt | heq
      · have hne : c + i ≠ c + n := by
          omega
        rw [store_other hne]
        exact ih hlt
      · subst heq
        exact store_same

theorem combineBlock_outside
    (h : q < c ∨ c + n ≤ q) :
    combineBlock f a b c n m q = m q :=
  storeBlock_outside (by simpa using h)

theorem combineBlock_lane
    (h : i < n) :
    combineBlock f a b c n m (c + i) = f (m (a + i)) (m (b + i)) := by
  have hlen : i < (List.zipWith f (loadBlock m a n) (loadBlock m b n)).length := by
    simpa using h
  rw [combineBlock, storeBlock_inside hlen]
  simp [loadBlock]

/-- Combining longer blocks combines a first part and then the rest. -/
theorem combineBlock_add
    (n k : Nat) :
    combineBlock f a b c (n + k) m =
      storeBlock (combineBlock f a b c n m) (c + n)
        (List.zipWith f (loadBlock m (a + n) k) (loadBlock m (b + n) k)) := by
  rw [combineBlock, loadBlock_add, loadBlock_add, List.zipWith_append (by simp),
    storeBlock_append, combineBlock]
  simp

/-- A lane of an operand that the result does not start inside is still unread. -/
theorem combineForward_operand
    (h : ¬ StartsInside a c n)
    (hi : i < n)
    {a₁ a₂ : Nat} :
    combineForward f a₁ a₂ c i m (a + i) = m (a + i) := by
  refine combineForward_outside ?_
  by_cases hin : a < c ∧ c - a < n
  · exact absurd ⟨c - a, by omega, hin.2, by omega⟩ h
  · omega

/-- Both ways agree when the result starts inside neither operand. -/
theorem combineForward_eq_combineBlock
    (ha : ¬ StartsInside a c n)
    (hb : ¬ StartsInside b c n) :
    combineForward f a b c n m = combineBlock f a b c n m := by
  funext q
  by_cases hq : q < c ∨ c + n ≤ q
  · rw [combineForward_outside hq, combineBlock_outside hq]
  · have hlow : c ≤ q := by
      omega
    obtain ⟨i, rfl⟩ := Nat.exists_eq_add_of_le hlow
    have hi : i < n := by
      omega
    rw [combineForward_lane hi, combineBlock_lane hi,
      combineForward_operand ha hi, combineForward_operand hb hi]

/-- The order of the operands of a commutative operation does not matter. -/
theorem combineForward_comm
    (hf : ∀ x y, f x y = f y x) :
    combineForward f a b c n m = combineForward f b a c n m := by
  induction n with
  | zero =>
      rfl
  | succ n ih =>
      rw [combineForward_succ, combineForward_succ, ih, hf]

/-- The order of the operands of a commutative operation does not matter. -/
theorem combineBlock_comm
    (hf : ∀ x y, f x y = f y x) :
    combineBlock f a b c n m = combineBlock f b a c n m := by
  simp only [combineBlock]
  rw [List.zipWith_comm_of_comm hf]

end Combining

end Memory

end Foundation
end OsSeminars
