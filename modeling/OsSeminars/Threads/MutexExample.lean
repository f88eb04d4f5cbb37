import OsSeminars.Foundation.TransitionSystem
import OsSeminars.Foundation.Monitor
import OsSeminars.Threads.Server
import Mathlib.Data.Fin.Basic

/-!
# 15-threads/mutex-example.c: the program

`main` creates `n_threads` threads and joins them. Each of them repeats `tries`
times: lock the mutex, write `msg_len` times its own character to the server
with a `sched_yield` after each, unlock.

Any thread may move at any time, and a call of `write_to_server` takes a step
for each of its memory accesses. All calls of the thread library succeed. The
program ends here with the call of `dump_buff`, after all joins.
-/

namespace OsSeminars
namespace Threads
namespace MutexExample

open Foundation

/-- The constants of the program, which have the type `size_t`. -/
structure Constants where
  nThreads : Nat
  tries : Nat
  msgLen : Nat

/-- Constants whose product neither wraps around nor is the largest `size_t`. -/
structure Config extends Constants where
  cap_lt : nThreads * tries * msgLen < sizeMod - 1

instance : Coe Config Constants where
  coe c := c.toConstants

/-- The program points of `thread_func`. -/
inductive ThreadPc where
  | notCreated
  | outer (j : Nat)
  | lock (j : Nat)
  | inner (j i : Nat)
  | write (j i : Nat) (w : WritePc)
  | yield (j i : Nat)
  | unlock (j : Nat)
  | returned
deriving DecidableEq

/-- The program points of `main`. -/
inductive MainPc where
  | create (i : Nat)
  | join (i : Nat)
  | dumpBuff
deriving DecidableEq

structure State (c : Constants) where
  srv : Server
  mutex : Monitor (Fin c.nThreads)
  threads : Fin c.nThreads → ThreadPc
  main : MainPc

/-- Which thread moves. -/
inductive Label (c : Constants) where
  | main
  | thread (t : Fin c.nThreads)
deriving DecidableEq

/-- `args[i].no = i`, with the conversion to `int`. -/
def argNo {n : Nat} (t : Fin n) : Int :=
  toInt32 t.val

/-- The character `'0' + arg->no`. -/
def threadChar {n : Nat} (t : Fin n) : UInt8 :=
  UInt8.ofNat ((48 + argNo t) % 256).toNat

/-- The state after `init_server`, before the first thread is created. -/
def start (c : Constants) : State c where
  srv := initServer (c.nThreads * c.tries * c.msgLen % sizeMod)
  mutex := .initial
  threads _ := .notCreated
  main := .create 0

section Steps

variable {c : Constants}

def State.setPc
    (s : State c)
    (t : Fin c.nThreads)
    (pc : ThreadPc) : State c :=
  { s with threads := Function.update s.threads t pc }

/-- One step of a call of `write_to_server`; the result is not looked at. -/
def threadWrite
    (s : State c)
    (t : Fin c.nThreads)
    (j i : Nat) :
    WritePc → State c
  | .ret _ => s.setPc t (.yield j i)
  | w =>
      let r := w.step s.srv (threadChar t)
      { s with
        srv := r.1
        threads := Function.update s.threads t (.write j i r.2) }

/-- One step of `thread_func`. -/
def threadNext
    (s : State c)
    (t : Fin c.nThreads) : Option (State c) :=
  match s.threads t with
  | .notCreated => none
  | .outer j =>
      some (s.setPc t (if j < c.tries then .lock j else .returned))
  | .lock j =>
      match s.mutex.lock t with
      | none => none
      | some m => some { s.setPc t (.inner j 0) with mutex := m }
  | .inner j i =>
      some (s.setPc t (if i < c.msgLen then .write j i .check else .unlock j))
  | .write j i w => some (threadWrite s t j i w)
  | .yield j i => some (s.setPc t (.inner j (i + 1)))
  | .unlock j =>
      match s.mutex.unlock t with
      | none => none
      | some m => some { s.setPc t (.outer (j + 1)) with mutex := m }
  | .returned => none

/-- One step of `main`. -/
def mainNext (s : State c) : Option (State c) :=
  match s.main with
  | .create i =>
      if h : i < c.nThreads then
        some { s.setPc ⟨i, h⟩ (.outer 0) with main := .create (i + 1) }
      else some { s with main := .join 0 }
  | .join i =>
      if h : i < c.nThreads then
        if s.threads ⟨i, h⟩ = .returned then
          some { s with main := .join (i + 1) }
        else none
      else some { s with main := .dumpBuff }
  | .dumpBuff => none

def next
    (s : State c) :
    Label c → Option (State c)
  | .main => mainNext s
  | .thread t => threadNext s t

/-- The thread that stores a character into the buffer in this step. -/
def storing
    (s : State c) :
    Label c → Option (Fin c.nThreads)
  | .main => none
  | .thread t =>
      match s.threads t with
      | .write _ _ (.store _) => some t
      | _ => none

/-- The history of the threads that stored a character, in order. -/
def recordWriter
    (s : State c)
    (a : Label c)
    (writers : List (Fin c.nThreads)) : List (Fin c.nThreads) :=
  writers ++ (storing s a).toList

end Steps

/-- The threads of the program, started by `main`. -/
def system (c : Constants) : TransitionSystem (State c) (Label c) :=
  .ofProgram (fun s => s = start c) (fun _ _ => True) next

/-- The same runs with the history of the threads that stored a character. -/
def systemWithWriters
    (c : Constants) :
    TransitionSystem (State c × List (Fin c.nThreads)) (Label c) :=
  (system c).withHistory [] recordWriter

end MutexExample
end Threads
end OsSeminars
