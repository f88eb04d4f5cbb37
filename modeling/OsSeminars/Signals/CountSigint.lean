import OsSeminars.Foundation.TransitionSystem
import OsSeminars.Foundation.MachineInt
import OsSeminars.Foundation.Signals

/-!
# 16-signals/count-sigint.c: the program

One handler counts `SIGINT` and sets `done` on any other signal. After
installing it for `SIGINT` and `SIGTERM`, `main` calls `pause` until `done` is
set and prints the count.

Both signals may be sent and delivered between any two steps of `main`. The test
of `done` and the entry into `pause` are two such steps.
-/

namespace OsSeminars
namespace Signals
namespace CountSigint

open Foundation

/-- The process id that is printed, and the inherited signal mask. -/
structure Config where
  pid : Int
  inheritedMask : SigSet

inductive MainPc where
  | sigactionInt
  | sigactionTerm
  | printPid
  /-- the loop condition `!done` -/
  | check
  /-- before the call of `pause` -/
  | pause
  /-- in the call of `pause` -/
  | inPause
  | printCounter
  | exited
deriving DecidableEq

structure State where
  process : Process
  counter : Int
  done : Int
  pc : MainPc
  printed : List Int

/-- A step of `main` or its handler, or of the environment. -/
inductive Label where
  | main
  | send (sig : Signal)
  | deliver (sig : Signal)
deriving DecidableEq

/-- `sigint_handler`: no further signals in `sa_mask`, no `SA_NODEFER`. -/
def sigintHandler : SigAction where
  saMask := sigemptyset
  nodefer := false

def start (c : Config) : State where
  process := .started c.inheritedMask
  counter := 0
  done := 0
  pc := .sigactionInt
  printed := []

/-- The body of `sighandler`. -/
def sighandler
    (s : State)
    (signum : Signal) : State :=
  if signum = sigint then { s with counter := toInt32 (s.counter + 1) }
  else { s with done := 1 }

/-- One statement of `main`, while no handler is running. -/
def mainStatement
    (c : Config)
    (s : State) : Option State :=
  match s.pc with
  | .sigactionInt =>
      some { s with
        process := s.process.sigaction sigint sigintHandler
        pc := .sigactionTerm }
  | .sigactionTerm =>
      some { s with
        process := s.process.sigaction sigterm sigintHandler
        pc := .printPid }
  | .printPid =>
      some { s with printed := s.printed ++ [c.pid], pc := .check }
  | .check =>
      some { s with pc := if s.done = 0 then .pause else .printCounter }
  | .pause => some { s with process := s.process.pause, pc := .inPause }
  | .inPause =>
      s.process.wake.map fun p => { s with process := p, pc := .check }
  | .printCounter =>
      some { s with
        printed := s.printed ++ [s.counter]
        process := { s.process with terminated := true }
        pc := .exited }
  | .exited => none

/-- One step of the innermost running handler, or of `main`. -/
def mainNext
    (c : Config)
    (s : State) : Option State :=
  if s.process.terminated then none
  else
    match s.process.frames with
    | frame :: _ =>
        if frame.ran then some { s with process := s.process.sigreturn }
        else
          some (sighandler { s with process := s.process.bodyDone } frame.signal)
    | [] => mainStatement c s

def next
    (c : Config)
    (s : State) :
    Label → Option State
  | .main => mainNext c s
  | .send sig => some { s with process := s.process.send sig }
  | .deliver sig =>
      (s.process.deliver sig).map fun p => { s with process := p }

/-- Only `SIGINT` and `SIGTERM` are sent, at any time. -/
def AnyTime (_ : State) : Label → Prop
  | .send sig => sig = sigint ∨ sig = sigterm
  | _ => True

/-- In addition, `SIGTERM` is not delivered between the test of `done` and the
entry into `pause`. -/
def OutsideWindow
    (s : State)
    (a : Label) : Prop :=
  AnyTime s a ∧ (a = .deliver sigterm → s.pc ≠ .pause)

instance (s : State) : (a : Label) → Decidable (AnyTime s a)
  | .send sig => inferInstanceAs (Decidable (sig = sigint ∨ sig = sigterm))
  | .main => inferInstanceAs (Decidable True)
  | .deliver _ => inferInstanceAs (Decidable True)

instance (s : State) (a : Label) : Decidable (OutsideWindow s a) :=
  inferInstanceAs (Decidable (_ ∧ _))

/-- The process in an environment that keeps a contract. -/
def system
    (c : Config)
    (contract : State → Label → Prop) :
    TransitionSystem State Label :=
  .ofProgram (fun s => s = start c) contract (next c)

end CountSigint
end Signals
end OsSeminars
