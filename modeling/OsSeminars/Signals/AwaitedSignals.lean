import OsSeminars.Foundation.PauseOnce

/-!
# 16-signals: sig-alarm.c and finished-child-process.c

Both programs install a handler that prints a line, start what will raise the signal once,
and call `pause` to wait for it: a timer for `SIGALRM`, a child process that ends for
`SIGCHLD`. The handler may run between the start and the call of `pause`, which then never
returns. No other signal is sent to them, and the child is not stopped, which its parent
would be told of by `SIGCHLD` too.
-/

namespace OsSeminars
namespace Signals

open Foundation

/-- Both handlers are installed with `SA_SIGINFO | SA_RESTART` and an empty mask. -/
def handlerAction : SigAction where
  saMask := sigemptyset
  nodefer := false

namespace SigAlarm

def sigalrm : Signal := 14

inductive Timer
  | off
  | running
  | expired
  deriving DecidableEq

def Timer.step : Timer → Option (Timer × Bool)
  | running => some (expired, true)
  | _ => none

def Timer.left : Timer → Nat
  | running => 1
  | _ => 0

/-- `alarm(1)` and what follows from it. -/
def alarm :
    OneShot Timer where
  idle := .off
  started := .running
  step := Timer.step
  left := Timer.left
  left_idle := rfl
  left_started := Nat.one_pos
  left_of_step := by
    rintro (_ | _ | _) y raised hstep
    · cases hstep
    · cases hstep
      exact ⟨Nat.one_pos, by decide⟩
    · cases hstep
  left_of_stop := by
    rintro (_ | _ | _)
    · exact ⟨fun _ => rfl, fun _ => rfl⟩
    · exact ⟨fun h => (nomatch h), fun h => (nomatch h)⟩
    · exact ⟨fun _ => rfl, fun _ => rfl⟩

def program
    (inheritedMask : SigSet) :
    PauseOnce.Config Timer where
  source := alarm
  sig := sigalrm
  action := handlerAction
  message := "SIGALRM caught\n"
  mayFail := false
  inheritedMask := inheritedMask

/-- The process, started with the given signal mask. -/
def system
    (inheritedMask : SigSet) :
    TransitionSystem (PauseOnce.State Timer) PauseOnce.Label :=
  PauseOnce.system (program inheritedMask)

/--
With `SIGALRM` blocked no run returns from `main`. Otherwise some run does, and some run
takes the process to the call of `pause` when the handler has already run, from where no
run returns.
-/
theorem returns_unless_too_early
    (inheritedMask : SigSet) :
    ((∃ t, (system inheritedMask).Reachable t ∧ t.pc = .returned 0) ↔
      inheritedMask sigalrm = false) ∧
    ((∃ s, (system inheritedMask).Reachable s ∧ s.pc = .pause ∧
        s.written = ["SIGALRM caught\n"] ∧
        ∀ t, (system inheritedMask).Runs s t → t.pc ≠ .returned 0) ↔
      inheritedMask sigalrm = false) := by
  have hstart : (system inheritedMask).Reachable (PauseOnce.start (program inheritedMask)) :=
    TransitionSystem.Reachable.init rfl
  constructor
  · constructor
    · rintro ⟨t, ht, hreturned⟩
      exact (PauseOnce.of_returned ht hreturned).2.2
    · intro hmask
      obtain ⟨t, hruns, hreturned⟩ :=
        (PauseOnce.exists_returned_iff hstart).mpr (Or.inr (Or.inr ⟨nofun, hmask, rfl⟩))
      exact ⟨t, hstart.runs hruns, hreturned⟩
  · constructor
    · rintro ⟨s, hs, -, hwritten, -⟩
      refine (PauseOnce.inv_of_reachable hs).unmasked ?_
      rw [PauseOnce.State.handled, hwritten]
      exact Nat.lt_of_lt_of_le Nat.one_pos (Nat.le_add_right _ _)
    · intro hmask
      obtain ⟨s, hs, hpc, hwritten, hstuck⟩ :=
        PauseOnce.exists_too_early (c := program inheritedMask) hmask
      refine ⟨s, hs, hpc, hwritten, fun t hruns hreturned => hstuck ?_⟩
      exact (PauseOnce.exists_returned_iff hs).mp ⟨t, hruns, hreturned⟩

end SigAlarm

namespace FinishedChildProcess

def sigchld : Signal := 17

inductive ChildPc
  | absent
  | printPing
  | sleep
  | printTired
  | exit
  | exited
  deriving DecidableEq

structure Child where
  pc : ChildPc
  printed : List String
  deriving DecidableEq

def ping
    (pid : Nat) :
    String :=
  "ping from child, pid=" ++ toString pid ++ "\n"

def tired :
    String :=
  "я усталь\n"

def ChildPc.left : ChildPc → Nat
  | absent => 0
  | printPing => 4
  | sleep => 3
  | printTired => 2
  | exit => 1
  | exited => 0

/-- The branch of the child. The kernel sends `SIGCHLD` to the parent when it ends. -/
def childNext
    (pid : Nat)
    (child : Child) :
    Option (Child × Bool) :=
  match child.pc with
  | .absent => none
  | .printPing =>
      some ({ pc := .sleep, printed := child.printed ++ [ping pid] }, false)
  | .sleep => some ({ child with pc := .printTired }, false)
  | .printTired =>
      some ({ pc := .exit, printed := child.printed ++ [tired] }, false)
  | .exit => some ({ child with pc := .exited }, true)
  | .exited => none

theorem childNext_lowers
    {pid : Nat}
    {child later : Child}
    {raised : Bool}
    (hstep : childNext pid child = some (later, raised)) :
    later.pc.left + 1 = child.pc.left ∧ (raised = true ↔ later.pc.left = 0) := by
  obtain ⟨pc, printed⟩ := child
  cases pc with
  | absent =>
      cases hstep
  | exited =>
      cases hstep
  | _ =>
      cases hstep
      simp [ChildPc.left]

theorem childNext_eq_none_iff
    {pid : Nat}
    {child : Child} :
    childNext pid child = none ↔ child.pc.left = 0 := by
  obtain ⟨pc, printed⟩ := child
  cases pc <;> simp [childNext, ChildPc.left]

/-- `fork` and what follows from it. -/
def fork
    (pid : Nat) :
    OneShot Child where
  idle := { pc := .absent, printed := [] }
  started := { pc := .printPing, printed := [] }
  step := childNext pid
  left child := child.pc.left
  left_idle := rfl
  left_started := Nat.succ_pos 3
  left_of_step _ _ _ hstep := by
    obtain ⟨hlower, hraised⟩ := childNext_lowers hstep
    exact ⟨by omega, hraised⟩
  left_of_stop _ := childNext_eq_none_iff

/-- The parent; `fork` may fail, and `main` then returns `1`. -/
def program
    (pid : Nat)
    (inheritedMask : SigSet) :
    PauseOnce.Config Child where
  source := fork pid
  sig := sigchld
  action := handlerAction
  message := "SIGCHLD caught\n"
  mayFail := true
  inheritedMask := inheritedMask

def system
    (pid : Nat)
    (inheritedMask : SigSet) :
    TransitionSystem (PauseOnce.State Child) PauseOnce.Label :=
  PauseOnce.system (program pid inheritedMask)

/-- What the child has printed when it is at a point of its branch. -/
def printedAt
    (pid : Nat) :
    ChildPc → List String
  | .absent => []
  | .printPing => []
  | .sleep => [ping pid]
  | .printTired => [ping pid]
  | .exit => [ping pid, tired]
  | .exited => [ping pid, tired]

/-- The child has been created. -/
structure Running
    (pid : Nat)
    (child : Child) :
    Prop where
  printed : child.printed = printedAt pid child.pc
  created : child.pc ≠ .absent

theorem Running.step
    {pid : Nat}
    {child later : Child}
    {raised : Bool}
    (h : Running pid child)
    (hstep : childNext pid child = some (later, raised)) :
    Running pid later := by
  obtain ⟨pc, printed⟩ := child
  obtain ⟨hprinted, -⟩ := h
  dsimp only at hprinted
  subst hprinted
  cases pc with
  | absent =>
      cases hstep
  | exited =>
      cases hstep
  | _ =>
      cases hstep
      exact ⟨rfl, nofun⟩

theorem Running.eq_exited
    {pid : Nat}
    {child : Child}
    (h : Running pid child)
    (hleft : child.pc.left = 0) :
    child = { pc := .exited, printed := [ping pid, tired] } := by
  obtain ⟨pc, printed⟩ := child
  obtain ⟨hprinted, hcreated⟩ := h
  dsimp only at hprinted hcreated hleft
  subst hprinted
  cases pc with
  | absent =>
      exact absurd rfl hcreated
  | exited =>
      rfl
  | _ =>
      cases hleft

variable {pid : Nat} {inheritedMask : SigSet} {s : PauseOnce.State Child}

theorem running_started :
    Running pid (fork pid).started :=
  ⟨rfl, by simp [fork]⟩

/--
When the parent's `main` returns from `pause`, its handler has written one line, and the
child has printed both of its lines and ended. It can still return so if and only if the
handler has woken `pause`, or `SIGCHLD` is not blocked and no handler has been started.
-/
theorem returns_behind_child
    (h : (system pid inheritedMask).Reachable s) :
    (s.pc = .returned 0 →
      s.written = ["SIGCHLD caught\n"] ∧
      s.source = { pc := .exited, printed := [ping pid, tired] }) ∧
    ((∃ t, (system pid inheritedMask).Runs s t ∧ t.pc = .returned 0) ↔
      s.pc = .returned 0 ∨ s.woken = true ∨
        ((∀ status, s.pc ≠ .returned status) ∧
          inheritedMask sigchld = false ∧ s.handled = 0)) := by
  refine ⟨fun hreturned => ?_, PauseOnce.exists_returned_iff h⟩
  obtain ⟨hwritten, hleft, -⟩ := PauseOnce.of_returned h hreturned
  have hlate : ¬ s.pc.Early := by
    rw [hreturned]
    exact fun hne => hne rfl
  have hchild : Running pid s.source :=
    PauseOnce.source_of_reachable running_started (fun _ _ _ hx hstep => hx.step hstep) h hlate
  exact ⟨hwritten, hchild.eq_exited hleft⟩

/-- The handler of `SIGCHLD` has run before `pause` is called. -/
theorem returns_behind_child_tooEarly :
    ∃ s, (system 7 sigemptyset).Reachable s ∧
      s.pc = .pause ∧
      ∀ t, (system 7 sigemptyset).Runs s t → t.pc ≠ .returned 0 := by
  have hstart : (system 7 sigemptyset).Reachable (PauseOnce.start (program 7 sigemptyset)) :=
    TransitionSystem.Reachable.init rfl
  obtain ⟨s, hs, htest⟩ :=
    TransitionSystem.exists_reachable_of_exec
      [.main, .main, .source, .source, .source, .source, .deliver sigchld, .main, .main]
      (fun s : PauseOnce.State Child =>
        decide (s.pc = .pause ∧ s.woken = false ∧ s.handled = 1))
      hstart (by decide +kernel) (by decide +kernel)
  obtain ⟨hpc, hasleep, hhandled⟩ := of_decide_eq_true htest
  refine ⟨s, hs, hpc, fun t hruns hreturned => ?_⟩
  rcases (returns_behind_child hs).2.mp ⟨t, hruns, hreturned⟩ with hzero | hwoken | ⟨-, -, hnone⟩
  · rw [hpc] at hzero
    cases hzero
  · rw [hasleep] at hwoken
    cases hwoken
  · rw [hhandled] at hnone
    cases hnone

end FinishedChildProcess

end Signals
end OsSeminars
