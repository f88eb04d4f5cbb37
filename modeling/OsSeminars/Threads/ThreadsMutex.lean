import OsSeminars.Foundation.ForkJoin
import OsSeminars.Foundation.MachineInt
import OsSeminars.Foundation.Memory
import OsSeminars.Foundation.Monitor
import OsSeminars.Foundation.TransitionSystem
import Mathlib.Algebra.Field.Rat

/-!
# `threads-mutex.c`: the program

`main` starts `k` threads and joins them. Each of them locks the mutex, adds to
the cell before its own one, to its own cell and to the cell behind it, and
unlocks. The cells form a ring, and the indices are computed in `size_t`.

An addition `doubles[i] += x` is a load followed by a store, and any thread may
move between the two. The cells hold exact numbers. A call of the thread library
by `main` may fail, which ends the process.
-/

namespace OsSeminars
namespace Threads
namespace ThreadsMutex

open Foundation

/-- The arguments of the program: `k` is a positive `long`. -/
structure Config where
  N : Nat
  k : Nat
  k_pos : 0 < k
  k_lt : k < 2 ^ 63

/-- The three statements of the critical section, by the cell they add to. -/
inductive Addition
  | previous
  | own
  | following
  deriving DecidableEq

/-- The program points of `thread_func`. -/
inductive ThreadPc
  | notCreated
  | lock
  | load (x : Addition)
  | store (x : Addition) (loaded : ℚ)
  | unlock
  | returned
  deriving DecidableEq

/-- The program points of `main`. -/
inductive MainPc
  | threads (loop : ForkJoin)
  | exited (status : Nat)
  deriving DecidableEq

structure State (c : Config) where
  doubles : Memory ℚ
  mutex : Monitor (Fin c.k)
  threads : Fin c.k → ThreadPc
  main : MainPc

/-- Which thread moves; the calls of `main` also return a status. -/
inductive Label (c : Config)
  | main (s : Int)
  | thread (t : Fin c.k)
  deriving DecidableEq

/-- The index that a statement uses, in `size_t` arithmetic. -/
def index
    (c : Config)
    (thread_no : Nat) :
    Addition → Nat
  | .previous => toSizeT ((toSizeT ((thread_no : Int) - 1) : Int) + c.k) % c.k
  | .own => thread_no
  | .following => toSizeT ((thread_no : Int) + 1) % c.k

/-- The summand of a statement. -/
def amount
    (c : Config) :
    Addition → ℚ
  | .previous => 99 / 100 * c.N
  | .own => 1 * c.N
  | .following => 101 / 100 * c.N

/-- The program point behind a statement. -/
def behind : Addition → ThreadPc
  | .previous => .load .own
  | .own => .load .following
  | .following => .unlock

/-- The state after `memset`. -/
def start
    (c : Config) :
    State c where
  doubles _ := 0
  mutex := .initial
  threads _ := .notCreated
  main := .threads (.create 0)

section Steps

variable {c : Config} (s : State c)

def State.setPc
    (t : Fin c.k)
    (pc : ThreadPc) :
    State c :=
  { s with threads := Function.update s.threads t pc }

/-- One step of `thread_func`. -/
def threadNext
    (t : Fin c.k) :
    Option (State c) :=
  match s.threads t with
  | .notCreated => none
  | .lock =>
      match s.mutex.lock t with
      | none => none
      | some m => some { s.setPc t (.load .previous) with mutex := m }
  | .load x => some (s.setPc t (.store x (s.doubles (index c t x))))
  | .store x loaded =>
      some { s.setPc t (behind x) with
        doubles := s.doubles.store (index c t x) (loaded + amount c x) }
  | .unlock =>
      match s.mutex.unlock t with
      | none => none
      | some m => some { s.setPc t .returned with mutex := m }
  | .returned => none

/-- One step of `main`; `status` is what the library call returns. -/
def mainNext
    (status : Int) :
    Option (State c) :=
  match s.main with
  | .threads (.create i) =>
      if h : i < c.k then
        if status ≠ 0 then
          some { s with main := .exited 1 }
        else
          some { s.setPc ⟨i, h⟩ .lock with main := .threads (.create (i + 1)) }
      else some { s with main := .threads (.join 0) }
  | .threads (.join i) =>
      if h : i < c.k then
        if status ≠ 0 then
          some { s with main := .exited 1 }
        else if s.threads ⟨i, h⟩ = .returned then
          some { s with main := .threads (.join (i + 1)) }
        else none
      else some { s with main := .threads .joined }
  | .threads .joined => some { s with main := .exited 0 }
  | .exited _ => none

/-- A thread moves only while the process has not exited. -/
def next :
    Label c → Option (State c)
  | .main status => mainNext s status
  | .thread t =>
      match s.main with
      | .exited _ => none
      | .threads _ => threadNext s t

/-- The history of the additions that were stored, in order. -/
def recordAddition
    (a : Label c)
    (added : List (Fin c.k × Addition)) :
    List (Fin c.k × Addition) :=
  match a with
  | .main _ => added
  | .thread t =>
      match s.threads t with
      | .store x _ => added ++ [(t, x)]
      | _ => added

end Steps

/-- The threads of the program, started by `main`. -/
def system
    (c : Config) :
    TransitionSystem (State c) (Label c) :=
  .ofProgram (fun s => s = start c) (fun _ _ => True) next

/-- The same runs with the history of the additions. -/
def systemWithAdditions
    (c : Config) :
    TransitionSystem (State c × List (Fin c.k × Addition)) (Label c) :=
  (system c).withHistory [] recordAddition

/-- The additions that a cell has received. -/
def additionsAt
    (c : Config)
    (added : List (Fin c.k × Addition))
    (j : Nat) :
    List Addition :=
  (added.filter (fun p => index c p.1 p.2 = j)).map Prod.snd

end ThreadsMutex
end Threads
end OsSeminars
