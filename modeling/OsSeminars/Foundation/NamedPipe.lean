import OsSeminars.Foundation.Pipe

/-!
# Foundation: named pipes

A named pipe is a pipe whose ends are opened by name. `open` counts its end at once
and then waits until the other end has been opened, unless it is open already. What a
waiting process looks at is how many times the other end has been opened so far, so a
partner that comes and goes while it sleeps is not missed. When the last end is closed
the bytes that nobody has read are gone.
-/

namespace OsSeminars
namespace Foundation

universe u

/-- The end that a process waits for. -/
def PipeEnd.other : PipeEnd → PipeEnd
  | read => write
  | write => read

/-- A pipe, and how many times each of its ends has been opened. -/
structure NamedPipe (α : Type u) (C : Nat) where
  pipe : Pipe α C
  opened : PipeEnd → Nat

namespace NamedPipe

variable {α : Type u} {C : Nat}

/-- After `mkfifo`. -/
def created : NamedPipe α C where
  pipe := .fresh 0
  opened _ := 0

/-- The end is counted when `open` begins. -/
def enter
    (f : NamedPipe α C)
    (e : PipeEnd) :
    NamedPipe α C where
  pipe :=
    { f.pipe with
      openEnds := Function.update f.pipe.openEnds e (f.pipe.openEnds e + 1) }
  opened := Function.update f.opened e (f.opened e + 1)

/-- What `open` waits for: nothing, or that the other end is opened once more than
this. -/
def awaited
    (f : NamedPipe α C)
    (e : PipeEnd) :
    Option Nat :=
  if f.pipe.openEnds e.other = 0 then some (f.opened e.other) else none

/-- The other end has been opened since. -/
def PartnerCame
    (f : NamedPipe α C)
    (e : PipeEnd)
    (seen : Nat) :
    Prop :=
  f.opened e.other ≠ seen

instance
    (f : NamedPipe α C)
    (e : PipeEnd)
    (seen : Nat) :
    Decidable (f.PartnerCame e seen) :=
  inferInstanceAs (Decidable (_ ≠ _))

/-- The bytes are gone when no end is open. -/
def discard
    (p : Pipe α C) :
    Pipe α C :=
  if p.openEnds .read = 0 ∧ p.openEnds .write = 0 then
    { p with buffered := [], fits := Nat.zero_le C }
  else p

/-- `close` of a descriptor of one end. -/
def close
    (f : NamedPipe α C)
    (e : PipeEnd) :
    NamedPipe α C :=
  { f with pipe := discard (f.pipe.release e) }

section Ends

variable (f : NamedPipe α C) (e : PipeEnd)

/-- `open` waits when nobody has the other end open. -/
theorem awaited_eq_some_iff
    {seen : Nat} :
    f.awaited e = some seen ↔ f.pipe.openEnds e.other = 0 ∧ f.opened e.other = seen := by
  unfold awaited
  split_ifs with h <;> simp [h]

theorem awaited_eq_none_iff :
    f.awaited e = none ↔ f.pipe.openEnds e.other ≠ 0 := by
  unfold awaited
  split_ifs with h <;> simp [h]

theorem enter_openEnds :
    (f.enter e).pipe.openEnds =
      Function.update f.pipe.openEnds e (f.pipe.openEnds e + 1) :=
  rfl

theorem enter_opened :
    (f.enter e).opened = Function.update f.opened e (f.opened e + 1) :=
  rfl

@[simp] theorem enter_buffered :
    (f.enter e).pipe.buffered = f.pipe.buffered :=
  rfl

@[simp] theorem close_opened :
    (f.close e).opened = f.opened :=
  rfl

@[simp] theorem discard_openEnds
    (p : Pipe α C) :
    (discard p).openEnds = p.openEnds := by
  unfold discard
  split_ifs <;> rfl

theorem close_openEnds :
    (f.close e).pipe.openEnds =
      Function.update f.pipe.openEnds e (f.pipe.openEnds e - 1) :=
  discard_openEnds _

/-- Nothing is lost as long as the other end stays open. -/
theorem close_buffered_of_other
    (h : f.pipe.openEnds e.other ≠ 0) :
    (f.close e).pipe.buffered = f.pipe.buffered := by
  have hother : ¬ ((f.pipe.release e).openEnds .read = 0 ∧
      (f.pipe.release e).openEnds .write = 0) := by
    rintro ⟨hread, hwrite⟩
    cases e with
    | read =>
        exact h hwrite
    | write =>
        exact h hread
  show (discard (f.pipe.release e)).buffered = f.pipe.buffered
  rw [discard, if_neg hother]
  rfl

end Ends

end NamedPipe

end Foundation
end OsSeminars
