import OsSeminars.Foundation.TransitionSystem
import OsSeminars.Foundation.Signals

/-!
# 16-signals/rt-signals.c: the program

The process blocks all signals, installs one handler for three signals and
forks. The child sleeps in `sigsuspend` with an empty mask, again and again,
until the handler of `SIGINT` exits. The parent sends it a number of `SIGUSR1`,
a number of `SIGRTMIN` and then one `SIGINT`, and waits for its end.

The parent, the child and the kernel that delivers the signals of the child take
steps in any order. All calls succeed.
-/

namespace OsSeminars
namespace Signals
namespace RtSignals

open Foundation

/-- The numbers of signals the parent sends, and the inherited signal mask. -/
structure Config where
  usr1Count : Nat
  rtminCount : Nat
  inheritedMask : SigSet

/-- The array `signals`, without its terminating zero. -/
def signals : List Signal :=
  [sigusr1, sigint, sigrtmin]

/-- `main` up to `fork`: the process and the variable `mask`. -/
def beforeFork (inheritedMask : SigSet) : Process × SigSet :=
  let mask := sigfillset
  let p := (Process.started inheritedMask).blockSignals mask
  let p :=
    signals.foldl
      (fun p sig => p.sigaction sig { saMask := mask, nodefer := true }) p
  (p, sigemptyset)

/-- What `handler` prints. -/
def handlerText (signum : Signal) : String :=
  if signum = sigusr1 then "Child process: got SIGUSR1\n"
  else if signum = sigint then "Child process: got SIGINT, finish\n"
  else "Child process: got SIGRTMIN\n"

/-- The parent branch. -/
inductive ParentPc where
  | sendUsr1 (i : Nat)
  | sendRtmin (i : Nat)
  | sleep
  | announce
  | sendInt
  | waitpid
  | finished
deriving DecidableEq

structure State where
  child : Process
  /-- the variable `mask` of the child -/
  mask : SigSet
  childOutput : List String
  parent : ParentPc
  parentOutput : List String

/-- Who moves: the parent, the child, or the kernel that delivers a signal. -/
inductive Label where
  | parent
  | child
  | deliver (sig : Signal)
deriving DecidableEq

/-- The state after `fork`. -/
def start (c : Config) : State where
  child := (beforeFork c.inheritedMask).1.fork
  mask := (beforeFork c.inheritedMask).2
  childOutput := []
  parent := .sendUsr1 0
  parentOutput := []

/-- The body of `handler`; `exit` ends the child. -/
def handlerBody
    (s : State)
    (signum : Signal) : State :=
  let p := s.child.bodyDone
  { s with
    childOutput := s.childOutput ++ [handlerText signum]
    child := if signum = sigint then { p with terminated := true } else p }

/-- One step of the child: its handler, or else its loop around `sigsuspend`. -/
def childNext (s : State) : Option State :=
  if s.child.terminated then none
  else
    match s.child.frames with
    | frame :: _ =>
        if frame.ran then some { s with child := s.child.sigreturn }
        else some (handlerBody s frame.signal)
    | [] =>
        match s.child.sleep with
        | none => some { s with child := s.child.sigsuspend s.mask }
        | some _ => s.child.wake.map fun p => { s with child := p }

/-- One step of the parent. -/
def parentNext
    (c : Config)
    (s : State) : Option State :=
  match s.parent with
  | .sendUsr1 i =>
      if i < c.usr1Count then
        some { s with
          child := s.child.send sigusr1
          parent := .sendUsr1 (i + 1) }
      else some { s with parent := .sendRtmin 0 }
  | .sendRtmin i =>
      if i < c.rtminCount then
        some { s with
          child := s.child.send sigrtmin
          parent := .sendRtmin (i + 1) }
      else some { s with parent := .sleep }
  | .sleep => some { s with parent := .announce }
  | .announce =>
      some { s with
        parentOutput := s.parentOutput ++
          ["Parent process: Request child finish with SIGINT\n"]
        parent := .sendInt }
  | .sendInt =>
      some { s with
        child := s.child.send sigint
        parent := .waitpid }
  | .waitpid =>
      if s.child.terminated then some { s with parent := .finished }
      else none
  | .finished => none

def next
    (c : Config)
    (s : State) :
    Label → Option State
  | .parent => parentNext c s
  | .child => childNext s
  | .deliver sig => (s.child.deliver sig).map fun p => { s with child := p }

/-- The signal that the parent sends in its next step. -/
def sending
    (c : Config)
    (s : State) : Option Signal :=
  match s.parent with
  | .sendUsr1 i => if i < c.usr1Count then some sigusr1 else none
  | .sendRtmin i => if i < c.rtminCount then some sigrtmin else none
  | .sendInt => some sigint
  | _ => none

/-- What a step does to the signals of the child. -/
def signalEvent
    (c : Config)
    (s : State) :
    Label → Option SignalEvent
  | .parent => (sending c s).map .sent
  | .child => none
  | .deliver sig =>
      if (s.child.action sig).isSome then some (.handled sig) else none

/-- The history of the signals sent to the child and handled by it. -/
def recordSignal
    (c : Config)
    (s : State)
    (a : Label)
    (log : List SignalEvent) : List SignalEvent :=
  log ++ (signalEvent c s a).toList

/-- Parent and child after `fork`. -/
def system (c : Config) : TransitionSystem State Label :=
  .ofProgram (fun s => s = start c) (fun _ _ => True) (next c)

/-- The same runs with the history of the signals. -/
def systemWithLog
    (c : Config) :
    TransitionSystem (State × List SignalEvent) Label :=
  (system c).withHistory [] (recordSignal c)

end RtSignals
end Signals
end OsSeminars
