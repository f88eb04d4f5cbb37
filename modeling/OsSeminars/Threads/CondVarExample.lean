import OsSeminars.Foundation.TransitionSystem
import OsSeminars.Foundation.Monitor
import OsSeminars.Threads.Server

/-!
# 15-threads/cond-var-example.c: the program

The writer fills the server, sets `full` and signals the condition variable.
The reader waits until `full` is 1 and then announces that it reads the buffer.

`main` declares `full` without a value, so the byte that it happens to contain
is a parameter of the program here. Waiting threads may also wake up spuriously,
which is a step of its own.
-/

namespace OsSeminars
namespace Threads
namespace CondVarExample

open Foundation

/-- The constant `msg_len` and the first content of the variable `full`. -/
structure Config where
  msgLen : Nat
  msgLen_lt : msgLen < sizeMod
  initialFull : UInt8

inductive Thread where
  | reader
  | writer
deriving DecidableEq

instance : Fintype Thread where
  elems := {.reader, .writer}
  complete t := by cases t <;> simp

/-- The program points of `writer_func`. -/
inductive WriterPc where
  | notCreated
  | lock
  | loop (i : Nat)
  | write (i : Nat) (w : WritePc)
  | sleep (i : Nat)
  | setFull
  | signal
  | unlock
  | returned
deriving DecidableEq

/-- The program points of `reader_func`; `waiting` is inside the call of
`pthread_cond_wait`, after the mutex has been released. -/
inductive ReaderPc where
  | notCreated
  | lock
  | testFull
  | condWait
  | waiting
  | announce
  | unlock
  | returned
deriving DecidableEq

inductive MainPc where
  | createReader
  | createWriter
  | joinReader
  | joinWriter
  | finished
deriving DecidableEq

structure State where
  srv : Server
  full : UInt8
  monitor : Monitor Thread
  reader : ReaderPc
  writer : WriterPc
  main : MainPc

/-- Who moves; the writer's label also names the thread that a signal wakes. -/
inductive Label where
  | main
  | reader
  | writer (woken : Option Thread)
  | spuriousWakeup (t : Thread)
deriving DecidableEq

/-- The state of `main` before the first `pthread_create`. -/
def start (c : Config) : State where
  srv := initServer c.msgLen
  full := c.initialFull
  monitor := .initial
  reader := .notCreated
  writer := .notCreated
  main := .createReader

/-- The character `'0' + i`. -/
def messageChar (i : Nat) : UInt8 :=
  UInt8.ofNat (48 + i)

/-- One step of the call of `write_to_server`; the result is not looked at. -/
def writerWrite
    (s : State)
    (i : Nat) :
    WritePc → State
  | .ret _ => { s with writer := .sleep i }
  | w =>
      let r := w.step s.srv (messageChar i)
      { s with srv := r.1, writer := .write i r.2 }

/-- One step of `writer_func`. -/
def writerNext
    (c : Config)
    (s : State)
    (woken : Option Thread) : Option State :=
  match s.writer with
  | .notCreated => none
  | .lock =>
      (s.monitor.lock .writer).map fun m =>
        { s with monitor := m, writer := .loop 0 }
  | .loop i =>
      some { s with
        writer := if i < c.msgLen then .write i .check else .setFull }
  | .write i w => some (writerWrite s i w)
  | .sleep i => some { s with writer := .loop (i + 1) }
  | .setFull => some { s with full := 1, writer := .signal }
  | .signal =>
      (s.monitor.signal woken).map fun m =>
        { s with monitor := m, writer := .unlock }
  | .unlock =>
      (s.monitor.unlock .writer).map fun m =>
        { s with monitor := m, writer := .returned }
  | .returned => none

/-- One step of `reader_func`. -/
def readerNext (s : State) : Option State :=
  match s.reader with
  | .notCreated => none
  | .lock =>
      (s.monitor.lock .reader).map fun m =>
        { s with monitor := m, reader := .testFull }
  | .testFull =>
      some { s with reader := if s.full ≠ 1 then .condWait else .announce }
  | .condWait =>
      (s.monitor.wait .reader).map fun m =>
        { s with monitor := m, reader := .waiting }
  | .waiting =>
      if s.monitor.waiting .reader then none
      else
        (s.monitor.lock .reader).map fun m =>
          { s with monitor := m, reader := .testFull }
  | .announce => some { s with reader := .unlock }
  | .unlock =>
      (s.monitor.unlock .reader).map fun m =>
        { s with monitor := m, reader := .returned }
  | .returned => none

/-- One step of `main`. -/
def mainNext (s : State) : Option State :=
  match s.main with
  | .createReader => some { s with reader := .lock, main := .createWriter }
  | .createWriter => some { s with writer := .lock, main := .joinReader }
  | .joinReader =>
      if s.reader = .returned then some { s with main := .joinWriter }
      else none
  | .joinWriter =>
      if s.writer = .returned then some { s with main := .finished }
      else none
  | .finished => none

def next
    (c : Config)
    (s : State) :
    Label → Option State
  | .main => mainNext s
  | .reader => readerNext s
  | .writer woken => writerNext c s woken
  | .spuriousWakeup t =>
      (s.monitor.wake t).map fun m => { s with monitor := m }

/-- The two threads of the program, started by `main`. -/
def system (c : Config) : TransitionSystem State Label :=
  .ofProgram (fun s => s = start c) (fun _ _ => True) (next c)

end CondVarExample
end Threads
end OsSeminars
