import Mathlib.Data.List.Basic
import Mathlib.Logic.Function.Basic

/-!
# Foundation: pipes

A pipe is a first-in first-out buffer of bounded capacity together with the
number of open descriptors of each of its two ends, counted over all processes.

The two counts decide what the calls do when the buffer alone does not: a read
from an empty pipe reports the end of file exactly when no write end is open,
and a write raises `SIGPIPE` exactly when no read end is open. A descriptor
table says which ends one process holds; closing an end there lowers the count.
-/

namespace OsSeminars
namespace Foundation

universe u

inductive PipeEnd where
  | read
  | write
deriving DecidableEq

/-- A pipe of capacity `C` holding elements that were written and not yet read. -/
structure Pipe (α : Type u) (C : Nat) where
  buffered : List α
  fits : buffered.length ≤ C
  openEnds : PipeEnd → Nat

/-- The ends of the pipe that one process has open. -/
abbrev PipeEnds : Type :=
  PipeEnd → Bool

/-- What a read of one element does. -/
inductive ReadOutcome (α : Type u) (C : Nat) where
  | element (x : α) (p : Pipe α C)
  | endOfFile
  | blocked

namespace Pipe

variable {α : Type u} {C : Nat}

/-- A pipe just created and then inherited by `n - 1` further processes. -/
def fresh (n : Nat) : Pipe α C where
  buffered := []
  fits := Nat.zero_le C
  openEnds _ := n

/-- Read one element: block only while the pipe is empty and has a write end. -/
def readOne (p : Pipe α C) : ReadOutcome α C :=
  match h : p.buffered with
  | x :: rest =>
      .element x
        { p with
          buffered := rest
          fits := by
            have hfits := p.fits
            rw [h, List.length_cons] at hfits
            omega }
  | [] => if p.openEnds .write = 0 then .endOfFile else .blocked

/-- The pipe behind its first `count` elements. -/
def dropFront (p : Pipe α C) (count : Nat) : Pipe α C :=
  { p with
    buffered := p.buffered.drop count
    fits := by
      have hfits := p.fits
      rw [List.length_drop]
      omega }

/-- Accept a part of a write, if there is room for it. -/
def accept (p : Pipe α C) (chunk : List α) : Option (Pipe α C) :=
  if h : p.buffered.length + chunk.length ≤ C then
    some
      { p with
        buffered := p.buffered ++ chunk
        fits := by rwa [List.length_append] }
  else none

/-- Lower the count of one end. -/
def release (p : Pipe α C) (e : PipeEnd) : Pipe α C :=
  { p with openEnds := Function.update p.openEnds e (p.openEnds e - 1) }

/-- `close` in a process: an end that is not open there is left alone. -/
def close
    (p : Pipe α C)
    (ends : PipeEnds)
    (e : PipeEnd) : Pipe α C × PipeEnds :=
  if ends e then (p.release e, Function.update ends e false) else (p, ends)

/-- The descriptors that a process still has open are closed when it exits. -/
def closeAll
    (p : Pipe α C)
    (ends : PipeEnds) : Pipe α C × PipeEnds :=
  let r := p.close ends .read
  r.1.close r.2 .write

theorem readOne_cons
    {p : Pipe α C}
    {x : α}
    {rest : List α}
    (h : p.buffered = x :: rest) :
    ∃ q : Pipe α C,
      p.readOne = .element x q ∧
      q.buffered = rest ∧
      q.openEnds = p.openEnds := by
  obtain ⟨buffered, fits, openEnds⟩ := p
  dsimp only at h
  subst h
  exact ⟨_, rfl, rfl, rfl⟩

theorem readOne_nil
    {p : Pipe α C}
    (h : p.buffered = []) :
    p.readOne =
      if p.openEnds .write = 0 then .endOfFile else .blocked := by
  obtain ⟨buffered, fits, openEnds⟩ := p
  dsimp only at h
  subst h
  rfl

theorem accept_eq_some
    {p q : Pipe α C}
    {chunk : List α}
    (h : p.accept chunk = some q) :
    q.buffered = p.buffered ++ chunk ∧ q.openEnds = p.openEnds := by
  unfold accept at h
  split_ifs at h with hroom
  cases h
  exact ⟨rfl, rfl⟩

theorem accept_isSome_iff
    {p : Pipe α C}
    {chunk : List α} :
    (p.accept chunk).isSome ↔ p.buffered.length + chunk.length ≤ C := by
  unfold accept
  split_ifs with hroom <;> simp [hroom]

@[simp] theorem close_buffered
    (p : Pipe α C)
    (ends : PipeEnds)
    (e : PipeEnd) :
    (p.close ends e).1.buffered = p.buffered := by
  unfold close
  split_ifs <;> rfl

@[simp] theorem closeAll_buffered
    (p : Pipe α C)
    (ends : PipeEnds) :
    (p.closeAll ends).1.buffered = p.buffered := by
  simp [closeAll]

/-- After `close` the end is not open in the process. -/
theorem close_ends
    (p : Pipe α C)
    (ends : PipeEnds)
    (e : PipeEnd) :
    (p.close ends e).2 = Function.update ends e false := by
  unfold close
  split_ifs with h
  · rfl
  · rw [Bool.not_eq_true] at h
    rw [← h, Function.update_eq_self]

/-- The descriptors open in two processes. -/
def endsOf
    (ends ends' : PipeEnds)
    (e : PipeEnd) : Nat :=
  (ends e).toNat + (ends' e).toNat

/-- Closing an end in the first of two processes keeps the count right. -/
theorem close_openEnds_left
    {p : Pipe α C}
    {ends ends' : PipeEnds}
    (h : p.openEnds = endsOf ends ends')
    (e : PipeEnd) :
    (p.close ends e).1.openEnds = endsOf (p.close ends e).2 ends' := by
  unfold close
  split_ifs with hopen
  · funext e'
    by_cases he : e' = e
    · subst he
      simp [release, h, endsOf, hopen]
    · simp [release, h, endsOf, he]
  · exact h

/-- Closing an end in the second of two processes keeps the count right. -/
theorem close_openEnds_right
    {p : Pipe α C}
    {ends ends' : PipeEnds}
    (h : p.openEnds = endsOf ends ends')
    (e : PipeEnd) :
    (p.close ends' e).1.openEnds = endsOf ends (p.close ends' e).2 := by
  have hswap : ∀ f g : PipeEnds, endsOf f g = endsOf g f := by
    intro f g
    funext e'
    exact Nat.add_comm _ _
  rw [hswap] at h ⊢
  exact close_openEnds_left h e

/-- A process that has exited holds no end. -/
theorem closeAll_ends
    (p : Pipe α C)
    (ends : PipeEnds) :
    (p.closeAll ends).2 = fun _ => false := by
  funext e
  cases e <;> simp [closeAll, close_ends]

/-- An exit of the first of two processes keeps the counts right. -/
theorem closeAll_openEnds_left
    {p : Pipe α C}
    {ends ends' : PipeEnds}
    (h : p.openEnds = endsOf ends ends') :
    (p.closeAll ends).1.openEnds = endsOf (p.closeAll ends).2 ends' :=
  close_openEnds_left (close_openEnds_left h .read) .write

/-- An exit of the second of two processes keeps the counts right. -/
theorem closeAll_openEnds_right
    {p : Pipe α C}
    {ends ends' : PipeEnds}
    (h : p.openEnds = endsOf ends ends') :
    (p.closeAll ends').1.openEnds = endsOf ends (p.closeAll ends').2 :=
  close_openEnds_right (close_openEnds_right h .read) .write

end Pipe

end Foundation
end OsSeminars
