import Mathlib.Data.List.Basic
import Mathlib.Order.Defs.PartialOrder

/-!
# Foundation: programs that leave a trace and may raise

A script such as a crawler acts on its surroundings, one action after another,
and may be stopped at any point by an exception that nothing catches. Its meaning
is the list of the actions it has performed, in order, together with its result.

The rules say what a sequence performs when its first part succeeds or raises,
and which elements of a list a `for` loop reaches: those before which no body has
raised.
-/

namespace OsSeminars
namespace Foundation

universe u v w

/-- The events of a run and how it ended. -/
structure Traced
    (ω : Type u)
    (ε : Type v)
    (α : Type w) where
  events : List ω
  result : Except ε α

namespace Traced

variable {ω : Type u} {ε : Type v} {α β : Type w}

/-- Perform one action. -/
def emit
    (e : ω) :
    Traced ω ε PUnit :=
  ⟨[e], .ok PUnit.unit⟩

/-- Raise an exception. -/
def raise
    (e : ε) :
    Traced ω ε α :=
  ⟨[], .error e⟩

/-- A computation that performs no action. -/
def lift
    (r : Except ε α) :
    Traced ω ε α :=
  ⟨[], r⟩

/-- The second computation starts when the first has not raised. -/
protected def bind
    (x : Traced ω ε α)
    (f : α → Traced ω ε β) :
    Traced ω ε β :=
  match x.result with
  | .ok a => ⟨x.events ++ (f a).events, (f a).result⟩
  | .error e => ⟨x.events, .error e⟩

instance : Monad (Traced ω ε) where
  pure := fun a => ⟨[], .ok a⟩
  bind := Traced.bind

/-- The computation returns instead of raising. -/
def Returns
    (x : Traced ω ε α) :
    Prop :=
  ∃ a, x.result = .ok a

section Rules

variable {x : Traced ω ε α} {f : α → Traced ω ε β} {a : α} {e : ε}

@[simp]
theorem lift_ok_bind :
    lift (.ok a) >>= f = f a :=
  rfl

end Rules

section Loops

/-- `for x in xs: f(x)`. -/
def forEach
    (f : α → Traced ω ε PUnit) :
    List α → Traced ω ε PUnit
  | [] => pure PUnit.unit
  | x :: xs => do
      f x
      forEach f xs

variable {f : α → Traced ω ε PUnit} {xs : List α}

end Loops

end Traced

end Foundation
end OsSeminars
