import Mathlib.Data.List.Basic

/-!
# Foundation: datagrams on their way

A datagram network holds the datagrams that have been sent and have not arrived.
Any of them may arrive next, so they are delayed and reordered at will; they may
also be lost, and they may be duplicated.

Whatever the network does, only datagrams that were sent arrive. Without
duplication a datagram that is alone on its way arrives at most once.
-/

namespace OsSeminars
namespace Foundation

universe u

/-- What the network does by itself to one of the datagrams. -/
inductive Disturbance
  | lose (i : Nat)
  | duplicate (i : Nat)
  deriving DecidableEq

/-- The disturbance is not a duplication. -/
def Disturbance.IsLoss : Disturbance → Prop
  | .lose _ => True
  | .duplicate _ => False

instance : (e : Disturbance) → Decidable e.IsLoss
  | .lose _ => inferInstanceAs (Decidable True)
  | .duplicate _ => inferInstanceAs (Decidable False)

namespace Datagrams

variable {α : Type u}

/-- One of the datagrams arrives. -/
def deliver
    (net : List α)
    (i : Nat) :
    Option (α × List α) :=
  net[i]?.map (fun x => (x, net.eraseIdx i))

/-- One of the datagrams is lost or duplicated. -/
def disturb
    (net : List α) :
    Disturbance → Option (List α)
  | .lose i => if i < net.length then some (net.eraseIdx i) else none
  | .duplicate i => net[i]?.map (fun x => x :: net)

variable {net net' : List α} {i : Nat} {x y : α} {e : Disturbance}

/-- What arrives was on its way, and what remains was, too. -/
theorem deliver_eq_some
    (h : deliver net i = some (x, net')) :
    x ∈ net ∧ net' ⊆ net := by
  obtain ⟨y, hy, heq⟩ := Option.map_eq_some_iff.mp h
  cases heq
  exact ⟨List.mem_of_getElem? hy, List.eraseIdx_subset⟩

/-- A delivery takes one datagram off the network. -/
theorem length_of_deliver
    (h : deliver net i = some (x, net')) :
    net.length = net'.length + 1 := by
  obtain ⟨y, hy, heq⟩ := Option.map_eq_some_iff.mp h
  cases heq
  obtain ⟨hlt, -⟩ := List.getElem?_eq_some_iff.mp hy
  rw [List.length_eraseIdx_of_lt hlt]
  omega

theorem disturb_subset
    (h : disturb net e = some net') :
    net' ⊆ net := by
  cases e with
  | lose i =>
      simp only [disturb] at h
      split_ifs at h
      cases h
      exact List.eraseIdx_subset
  | duplicate i =>
      obtain ⟨y, hy, rfl⟩ := Option.map_eq_some_iff.mp h
      exact List.cons_subset.mpr ⟨List.mem_of_getElem? hy, List.Subset.refl net⟩

theorem deliver_nil :
    deliver ([] : List α) i = none := by
  simp [deliver]

/-- A datagram that is alone on its way leaves nothing behind when it arrives. -/
theorem deliver_singleton
    (h : deliver [y] i = some (x, net')) :
    x = y ∧ net' = [] := by
  cases i with
  | zero =>
      simp only [deliver] at h
      cases h
      exact ⟨rfl, rfl⟩
  | succ i =>
      simp [deliver] at h

theorem disturb_nil
    (e : Disturbance) :
    disturb ([] : List α) e = none := by
  cases e <;> simp [disturb]

/-- A datagram that is alone on its way is lost without a trace. -/
theorem lose_singleton
    (hloss : e.IsLoss)
    (h : disturb [y] e = some net') :
    net' = [] := by
  cases e with
  | lose i =>
      simp only [disturb] at h
      split_ifs at h with hi
      cases h
      simp only [List.length_singleton] at hi
      have hzero : i = 0 := by
        omega
      subst hzero
      rfl
  | duplicate i =>
      exact hloss.elim

end Datagrams

end Foundation
end OsSeminars
