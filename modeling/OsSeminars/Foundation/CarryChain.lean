import Mathlib.Data.Nat.Digits.Defs
import Mathlib.Tactic.Ring

/-!
# Foundation: adding numbers digit by digit

A digit adder takes two digits and an incoming carry and gives a digit and an
outgoing carry. Chained along a list of digit pairs, least significant first, it
adds whole numbers. Digits and carries are of any type; `value` and `weight` say
which number they stand for.

When the adder is exact for one digit in base `β`, the chain over `n` digits is
exact in base `β ^ n`: the number read from the result digits together with the
last carry is the sum of the two numbers and of the first carry.
-/

namespace OsSeminars
namespace Foundation
namespace CarryChain

universe u v

variable {α : Type u} {κ : Type v}

/-- Add the pairs of digits in order; the carry of each addition goes into the next. -/
def chain
    (add : α → α → κ → α × κ) :
    List (α × α) → κ → List α × κ
  | [], c => ([], c)
  | (x, y) :: pairs, c =>
      let here := add x y c
      let rest := chain add pairs here.2
      (here.1 :: rest.1, rest.2)

/-- The adder is exact in base `β` for carries of at most one, and gives such a carry. -/
structure Exact
    (β : Nat)
    (value : α → Nat)
    (weight : κ → Nat)
    (add : α → α → κ → α × κ) : Prop where
  sum : ∀ x y c, weight c ≤ 1 →
    value (add x y c).1 + β * weight (add x y c).2 = value x + value y + weight c
  carry_le : ∀ x y c, weight c ≤ 1 → weight (add x y c).2 ≤ 1

variable
  {β : Nat}
  {value : α → Nat}
  {weight : κ → Nat}
  {add : α → α → κ → α × κ}

@[simp] theorem length_chain
    (pairs : List (α × α))
    (c : κ) :
    (chain add pairs c).1.length = pairs.length := by
  induction pairs generalizing c with
  | nil =>
      rfl
  | cons pair pairs ih =>
      simp [chain, ih]

theorem chain_carry_le
    (h : Exact β value weight add)
    (pairs : List (α × α))
    {c : κ}
    (hc : weight c ≤ 1) :
    weight (chain add pairs c).2 ≤ 1 := by
  induction pairs generalizing c with
  | nil =>
      exact hc
  | cons pair pairs ih =>
      exact ih (h.carry_le pair.1 pair.2 c hc)

/-- A chain of exact digit additions adds the numbers exactly. -/
theorem chain_sum
    (h : Exact β value weight add)
    (pairs : List (α × α))
    {c : κ}
    (hc : weight c ≤ 1) :
    Nat.ofDigits β ((chain add pairs c).1.map value) +
        β ^ pairs.length * weight (chain add pairs c).2 =
      Nat.ofDigits β (pairs.map (fun p => value p.1)) +
        Nat.ofDigits β (pairs.map (fun p => value p.2)) + weight c := by
  induction pairs generalizing c with
  | nil =>
      simp [chain]
  | cons pair pairs ih =>
      obtain ⟨x, y⟩ := pair
      have here := h.sum x y c hc
      have rest := ih (h.carry_le x y c hc)
      simp only [chain, List.map_cons, Nat.ofDigits_cons, List.length_cons, Nat.cast_id]
      -- the carry of the first digit is the first carry of the remaining chain
      calc
        _ = value (add x y c).1 +
              β * (Nat.ofDigits β ((chain add pairs (add x y c).2).1.map value) +
                β ^ pairs.length * weight (chain add pairs (add x y c).2).2) := by
          ring
        _ = (value (add x y c).1 + β * weight (add x y c).2) +
              β * (Nat.ofDigits β (pairs.map (fun p => value p.1)) +
                Nat.ofDigits β (pairs.map (fun p => value p.2))) := by
          rw [rest]
          ring
        _ = _ := by
          rw [here]
          ring

end CarryChain
end Foundation
end OsSeminars
