import OsSeminars.Foundation.TransitionSystem
import OsSeminars.Foundation.Pipe

/-!
# 14-dup-pipe/pipe: sending one message through a pipe

The programs `pipe-simple.c`, `pipe-simple-alternative.c` and
`unclosed-writer.c` fork, write one message in the child and read it byte by
byte in the parent. They differ only in where they keep the two descriptors
that `pipe` returned, so each of them is an `Exchange` with its own
descriptor expressions.

After `fork` both processes hold both ends. A label says which process moves
and, for a write, how many bytes the kernel accepts: a blocking write may be
accepted in several parts. The texts printed between the calls are left out,
except for what the parent prints about the bytes it received.
-/

namespace OsSeminars
namespace DupPipe

open Foundation

/-- What `pipe` stores into the two elements of its argument. -/
def pipeCall : Nat → PipeEnd
  | 0 => .read
  | _ => .write

/-- The descriptor expressions of a program and the message it sends. -/
structure Exchange where
  readFd : PipeEnd
  writeFd : PipeEnd
  mymessage : List UInt8

/-- Index of the read end in `pipefd`. -/
def READ : Nat := 0

/-- Index of the write end in `pipefd`. -/
def WRITE : Nat := 1

/-- `pipe-simple.c`. -/
def pipeSimple (mymessage : List UInt8) : Exchange where
  readFd := pipeCall READ
  writeFd := pipeCall WRITE
  mymessage := mymessage

/-- `struct MyPipe`: two descriptors in the order in which `pipe` fills them. -/
structure MyPipe where
  readFd : PipeEnd
  writeFd : PipeEnd

/-- `pipe((int*)&p)`. -/
def myPipe : MyPipe where
  readFd := pipeCall 0
  writeFd := pipeCall 1

/-- `pipe-simple-alternative.c`. -/
def pipeSimpleAlternative (mymessage : List UInt8) : Exchange where
  readFd := myPipe.readFd
  writeFd := myPipe.writeFd
  mymessage := mymessage

/-- `unclosed-writer.c`, with the close that its comment asks to remove. -/
def unclosedWriter (mymessage : List UInt8) : Exchange where
  readFd := pipeCall READ
  writeFd := pipeCall WRITE
  mymessage := mymessage

/-- The child branch; `write` holds the bytes not yet accepted. -/
inductive ChildPc where
  | closeRead
  | write (rest : List UInt8)
  | closeWrite
  | return0
  | exited
  | killedBySigpipe
deriving DecidableEq

/-- The parent branch; `print` is the body of the read loop. -/
inductive ParentPc where
  | closeWrite
  | read
  | print (ch : UInt8)
  | closeRead
  | wait
  | return0
  | exited
deriving DecidableEq

structure State (C : Nat) where
  pipe : Pipe UInt8 C
  child : ChildPc
  childEnds : PipeEnds
  parent : ParentPc
  parentEnds : PipeEnds
  /-- the bytes that `read` returned to the parent -/
  received : List UInt8
  /-- what the parent wrote to `STDOUT_FILENO` -/
  stdout : List UInt8

/-- Which process moves, and how many bytes of a write are accepted. -/
inductive Label where
  | child (accepted : Nat)
  | parent
deriving DecidableEq

/-- The state after a successful `fork`. -/
def afterFork (C : Nat) : State C where
  pipe := .fresh 2
  child := .closeRead
  childEnds _ := true
  parent := .closeWrite
  parentEnds _ := true
  received := []
  stdout := []

/-- What the parent prints for one byte. -/
def recvLine (ch : UInt8) : List UInt8 :=
  "recv: ".toUTF8.toList ++ [ch] ++ "\n".toUTF8.toList

section Steps

variable {C : Nat}

/-- `write(fd, .., ..)` with `rest` still to be accepted. -/
def childWrite
    (x : Exchange)
    (s : State C)
    (rest : List UInt8)
    (accepted : Nat) : Option (State C) :=
  if rest = [] ∨ x.writeFd = .read ∨ s.childEnds .write = false then
    -- the whole message was accepted, or the descriptor is not writable
    some { s with child := .closeWrite }
  else if s.pipe.openEnds .read = 0 then
    let r := s.pipe.closeAll s.childEnds
    some { s with
      pipe := r.1
      childEnds := r.2
      child := .killedBySigpipe }
  else if 1 ≤ accepted ∧ accepted ≤ rest.length then
    match s.pipe.accept (rest.take accepted) with
    | none => none
    | some p =>
        some { s with pipe := p, child := .write (rest.drop accepted) }
  else none

/-- The loop condition `read(fd, &ch, 1) > 0`. -/
def parentRead
    (x : Exchange)
    (s : State C) : Option (State C) :=
  if x.readFd = .write ∨ s.parentEnds .read = false then
    some { s with parent := .closeRead }
  else
    match s.pipe.readOne with
    | .element ch p =>
        some { s with
          pipe := p
          parent := .print ch
          received := s.received ++ [ch] }
    | .endOfFile => some { s with parent := .closeRead }
    | .blocked => none

/-- `close` of the child. -/
def childClose
    (s : State C)
    (fd : PipeEnd)
    (pc : ChildPc) : State C :=
  let r := s.pipe.close s.childEnds fd
  { s with pipe := r.1, childEnds := r.2, child := pc }

/-- `close` of the parent. -/
def parentClose
    (s : State C)
    (fd : PipeEnd)
    (pc : ParentPc) : State C :=
  let r := s.pipe.close s.parentEnds fd
  { s with pipe := r.1, parentEnds := r.2, parent := pc }

/-- One step of the child. -/
def childNext
    (x : Exchange)
    (s : State C)
    (accepted : Nat) : Option (State C) :=
  match s.child with
  | .closeRead => some (childClose s x.readFd (.write x.mymessage))
  | .write rest => childWrite x s rest accepted
  | .closeWrite => some (childClose s x.writeFd .return0)
  | .return0 =>
      let r := s.pipe.closeAll s.childEnds
      some { s with pipe := r.1, childEnds := r.2, child := .exited }
  | .exited => none
  | .killedBySigpipe => none

/-- One step of the parent. -/
def parentNext
    (x : Exchange)
    (s : State C) : Option (State C) :=
  match s.parent with
  | .closeWrite => some (parentClose s x.writeFd .read)
  | .read => parentRead x s
  | .print ch =>
      some { s with
        stdout := s.stdout ++ recvLine ch
        parent := .read }
  | .closeRead => some (parentClose s x.readFd .wait)
  | .wait =>
      -- `wait(NULL)` returns once the child has terminated
      if s.child = .exited ∨ s.child = .killedBySigpipe then
        some { s with parent := .return0 }
      else none
  | .return0 =>
      let r := s.pipe.closeAll s.parentEnds
      some { s with pipe := r.1, parentEnds := r.2, parent := .exited }
  | .exited => none

def next
    (x : Exchange)
    (s : State C) :
    Label → Option (State C)
  | .child accepted => childNext x s accepted
  | .parent => parentNext x s

end Steps

/-- The two processes and the pipe of capacity `C` after `fork`. -/
def system
    (x : Exchange)
    (C : Nat) :
    TransitionSystem (State C) Label :=
  .ofProgram (fun s => s = afterFork C) (fun _ _ => True) (next x)

end DupPipe
end OsSeminars
