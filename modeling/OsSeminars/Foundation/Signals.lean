import Mathlib.Data.List.Basic
import Mathlib.Logic.Function.Basic

/-!
# Foundation: signals of one process

A process has a signal mask, pending signals, an action for each signal, and a
stack of handlers that are running. A standard signal is pending or not; a
real-time signal is queued and counted. A signal may be delivered whenever it is
pending and not blocked. Its handler then runs with the mask of its action, and
the mask before the delivery is restored when the handler returns.

`sigsuspend` installs a mask and sleeps; `pause` is `sigsuspend` with the mask
that is already there. The call returns once a handler has run since it was
entered and no handler is running any more, and restores the mask from before.
`SA_RESTART` does not apply to these two calls and is left out, and so are the
two signals that cannot be blocked.

Two disciplines are developed here. `OneAtATime` is the discipline of a process
that blocks everything outside `sigsuspend` and in its handlers. `Ledger` relates
the signals sent and handled so far to those that are pending.
-/

namespace OsSeminars
namespace Foundation

abbrev Signal : Type :=
  Nat

abbrev SigSet : Type :=
  Signal → Bool

def sigint : Signal := 2

def sigusr1 : Signal := 10

def sigterm : Signal := 15

def sigrtmin : Signal := 34

def sigrtmax : Signal := 64

/-- Real-time signals are queued, all others are pending or not. -/
def isRealTime (sig : Signal) : Bool :=
  decide (sigrtmin ≤ sig ∧ sig ≤ sigrtmax)

def sigfillset : SigSet :=
  fun _ => true

def sigemptyset : SigSet :=
  fun _ => false

/-- `struct sigaction` of a handler: `sa_mask` and the flag `SA_NODEFER`. -/
structure SigAction where
  saMask : SigSet
  nodefer : Bool

/-- A running handler, the mask before it, and whether its body has run. -/
structure Frame where
  signal : Signal
  saved : SigSet
  ran : Bool

/-- The process sleeps; `woken` once a handler was started since. -/
structure Sleep where
  restore : SigSet
  woken : Bool

structure Process where
  blocked : SigSet
  pending : Signal → Nat
  /-- the default action, termination, is `none` -/
  action : Signal → Option SigAction
  /-- running handlers, the innermost first -/
  frames : List Frame
  sleep : Option Sleep
  terminated : Bool

namespace Process

/-- A process that has just started, with an inherited mask. -/
def started (mask : SigSet) : Process where
  blocked := mask
  pending _ := 0
  action _ := none
  frames := []
  sleep := none
  terminated := false

/-- `sigprocmask(SIG_BLOCK, &mask, NULL)`. -/
def blockSignals (p : Process) (mask : SigSet) : Process :=
  { p with blocked := fun sig => p.blocked sig || mask sig }

/-- `sigprocmask(SIG_UNBLOCK, &mask, NULL)`. -/
def unblockSignals (p : Process) (mask : SigSet) : Process :=
  { p with blocked := fun sig => p.blocked sig && !mask sig }

/-- `sigaction(sig, &act, NULL)`. -/
def sigaction (p : Process) (sig : Signal) (act : SigAction) : Process :=
  { p with action := Function.update p.action sig (some act) }

/-- The child after `fork`: masks and actions are inherited, nothing is pending. -/
def fork (p : Process) : Process :=
  { p with pending := fun _ => 0 }

/-- A signal is sent to the process by `kill` or `sigqueue`. -/
def send (p : Process) (sig : Signal) : Process :=
  { p with
    pending :=
      Function.update p.pending sig
        (if isRealTime sig then p.pending sig + 1 else 1) }

/-- The mask while the handler of `sig` runs. -/
def handlerMask
    (p : Process)
    (sig : Signal)
    (act : SigAction) : SigSet :=
  fun n => p.blocked n || act.saMask n || (!act.nodefer && decide (n = sig))

/-- A pending signal that is not blocked is delivered. -/
def deliver (p : Process) (sig : Signal) : Option Process :=
  if p.terminated = false ∧ 0 < p.pending sig ∧ p.blocked sig = false then
    let pending := Function.update p.pending sig (p.pending sig - 1)
    match p.action sig with
    | none => some { p with pending := pending, terminated := true }
    | some act =>
        some { p with
          pending := pending
          blocked := p.handlerMask sig act
          frames :=
            { signal := sig, saved := p.blocked, ran := false } :: p.frames
          sleep := p.sleep.map fun z => { z with woken := true } }
  else none

/-- The innermost handler has run its body. -/
def bodyDone (p : Process) : Process :=
  { p with
    frames :=
      match p.frames with
      | [] => []
      | frame :: rest => { frame with ran := true } :: rest }

/-- The innermost handler returns. -/
def sigreturn (p : Process) : Process :=
  match p.frames with
  | [] => p
  | frame :: rest => { p with blocked := frame.saved, frames := rest }

/-- `sigsuspend(&mask)` is entered. -/
def sigsuspend (p : Process) (mask : SigSet) : Process :=
  { p with
    blocked := mask
    sleep := some { restore := p.blocked, woken := false } }

/-- `pause()` is entered. -/
def pause (p : Process) : Process :=
  p.sigsuspend p.blocked

/-- The call that the process sleeps in returns. -/
def wake (p : Process) : Option Process :=
  match p.sleep with
  | none => none
  | some z =>
      if z.woken then some { p with blocked := z.restore, sleep := none }
      else none

/-- The handlers that have been started and have not run their body yet. -/
def unran (p : Process) : Nat :=
  p.frames.countP fun frame => !frame.ran

/-- The steps that the running handlers have left: each runs its body and returns. -/
def handlerSteps (p : Process) : Nat :=
  p.frames.length + p.unran

section Returns

variable {p : Process} {frame : Frame} {rest : List Frame}

theorem bodyDone_of_frames
    (h : p.frames = frame :: rest) :
    p.bodyDone = { p with frames := { frame with ran := true } :: rest } := by
  simp [bodyDone, h]

theorem sigreturn_of_frames
    (h : p.frames = frame :: rest) :
    p.sigreturn = { p with blocked := frame.saved, frames := rest } := by
  simp [sigreturn, h]

@[simp] theorem sigaction_pending
    (sig : Signal)
    (act : SigAction) :
    (p.sigaction sig act).pending = p.pending :=
  rfl

@[simp] theorem pause_pending :
    p.pause.pending = p.pending :=
  rfl

@[simp] theorem unran_send
    (sig : Signal) :
    (p.send sig).unran = p.unran :=
  rfl

@[simp] theorem handlerSteps_send
    (sig : Signal) :
    (p.send sig).handlerSteps = p.handlerSteps :=
  rfl

@[simp] theorem handlerSteps_sigaction
    (sig : Signal)
    (act : SigAction) :
    (p.sigaction sig act).handlerSteps = p.handlerSteps :=
  rfl

@[simp] theorem handlerSteps_blockSignals
    (mask : SigSet) :
    (p.blockSignals mask).handlerSteps = p.handlerSteps :=
  rfl

@[simp] theorem handlerSteps_unblockSignals
    (mask : SigSet) :
    (p.unblockSignals mask).handlerSteps = p.handlerSteps :=
  rfl

@[simp] theorem handlerSteps_pause :
    p.pause.handlerSteps = p.handlerSteps :=
  rfl

theorem unran_of_nil
    (h : p.frames = []) :
    p.unran = 0 := by
  simp [unran, h]

theorem unran_bodyDone
    (h : p.frames = frame :: rest)
    (hran : frame.ran = false) :
    p.bodyDone.unran + 1 = p.unran := by
  simp [bodyDone_of_frames h, unran, h, hran]

theorem unran_sigreturn
    (h : p.frames = frame :: rest)
    (hran : frame.ran = true) :
    p.sigreturn.unran = p.unran := by
  simp [sigreturn_of_frames h, unran, h, hran]

theorem unran_of_frames
    {q : Process}
    (h : q.frames = frame :: p.frames)
    (hran : frame.ran = false) :
    q.unran = p.unran + 1 := by
  simp [unran, h, hran]

theorem handlerSteps_bodyDone
    (h : p.frames = frame :: rest)
    (hran : frame.ran = false) :
    p.bodyDone.handlerSteps + 1 = p.handlerSteps := by
  have hlength : p.bodyDone.frames.length = p.frames.length := by
    simp [bodyDone_of_frames h, h]
  rw [handlerSteps, handlerSteps, hlength, ← unran_bodyDone h hran, Nat.add_assoc]

theorem handlerSteps_sigreturn
    (h : p.frames = frame :: rest)
    (hran : frame.ran = true) :
    p.sigreturn.handlerSteps + 1 = p.handlerSteps := by
  have hlength : p.sigreturn.frames.length + 1 = p.frames.length := by
    simp [sigreturn_of_frames h, h]
  rw [handlerSteps, handlerSteps, unran_sigreturn h hran]
  omega

theorem handlerSteps_of_frames
    {q : Process}
    (h : q.frames = frame :: p.frames)
    (hran : frame.ran = false) :
    q.handlerSteps = p.handlerSteps + 2 := by
  rw [handlerSteps, handlerSteps, unran_of_frames h hran, h, List.length_cons]
  omega

end Returns

section Deliveries

variable {p q : Process} {sig : Signal}

/-- A delivery ends the process or starts the handler of the signal. -/
theorem deliver_eq_some
    (h : p.deliver sig = some q) :
    p.terminated = false ∧
    0 < p.pending sig ∧
    p.blocked sig = false ∧
    q.pending = Function.update p.pending sig (p.pending sig - 1) ∧
    q.action = p.action ∧
    ((p.action sig = none ∧
        q.terminated = true ∧
        q.frames = p.frames ∧
        q.sleep = p.sleep) ∨
      ∃ act, p.action sig = some act ∧
        q.terminated = false ∧
        q.blocked = p.handlerMask sig act ∧
        q.frames =
          { signal := sig, saved := p.blocked, ran := false } :: p.frames ∧
        q.sleep = p.sleep.map fun z => { z with woken := true }) := by
  unfold deliver at h
  split_ifs at h with hdeliverable
  obtain ⟨halive, hpending, hunblocked⟩ := hdeliverable
  refine ⟨halive, hpending, hunblocked, ?_⟩
  cases hact : p.action sig with
  | none =>
      rw [hact] at h
      cases h
      exact ⟨rfl, rfl, Or.inl ⟨rfl, rfl, rfl, rfl⟩⟩
  | some act =>
      rw [hact] at h
      cases h
      exact ⟨rfl, rfl, Or.inr ⟨act, rfl, halive, rfl, rfl, rfl⟩⟩

theorem wake_eq_some
    (h : p.wake = some q) :
    ∃ z, p.sleep = some z ∧
      z.woken = true ∧
      q = { p with blocked := z.restore, sleep := none } := by
  unfold wake at h
  cases hsleep : p.sleep with
  | none =>
      rw [hsleep] at h
      cases h
  | some z =>
      rw [hsleep] at h
      dsimp only at h
      split_ifs at h with hwoken
      cases h
      exact ⟨z, rfl, hwoken, rfl⟩

end Deliveries

end Process

section OneHandlerAtATime

/--
Everything is blocked outside of the sleep and in the handlers, so a handler
runs only during the sleep and never inside another one.
-/
structure OneAtATime (p : Process) : Prop where
  action_full :
    ∀ sig act, p.action sig = some act → act.saMask = sigfillset
  awake : p.sleep = none → p.frames = [] ∧ p.blocked = sigfillset
  restore_full : ∀ z, p.sleep = some z → z.restore = sigfillset
  handling :
    p.frames = [] ∨ ∃ frame, p.frames = [frame] ∧ p.blocked = sigfillset

variable {p q : Process} {sig : Signal}

theorem OneAtATime.frames_le_one
    (h : OneAtATime p) :
    p.frames.length ≤ 1 := by
  rcases h.handling with hnone | ⟨frame, hone, -⟩
  · simp [hnone]
  · simp [hone]

/-- A delivery finds the process asleep and no handler running. -/
theorem OneAtATime.asleep_of_deliver
    (h : OneAtATime p)
    (hd : p.deliver sig = some q) :
    (∃ z, p.sleep = some z) ∧ p.frames = [] := by
  obtain ⟨-, -, hunblocked, -⟩ := Process.deliver_eq_some hd
  have hnotfull : p.blocked ≠ sigfillset := by
    intro hfull
    rw [hfull] at hunblocked
    cases hunblocked
  constructor
  · cases hsleep : p.sleep with
    | none => exact absurd (h.awake hsleep).2 hnotfull
    | some z => exact ⟨z, rfl⟩
  · rcases h.handling with hnone | ⟨frame, -, hfull⟩
    · exact hnone
    · exact absurd hfull hnotfull

theorem OneAtATime.deliver
    (h : OneAtATime p)
    {act : SigAction}
    (hact : p.action sig = some act)
    (hd : p.deliver sig = some q) :
    OneAtATime q := by
  obtain ⟨⟨z, hz⟩, hframes⟩ := h.asleep_of_deliver hd
  obtain ⟨-, -, -, -, haction, hend | hstart⟩ := Process.deliver_eq_some hd
  · rw [hact] at hend
    cases hend.1
  · obtain ⟨act', hact', -, hblocked, hnew, hsleep⟩ := hstart
    have hfull : q.blocked = sigfillset := by
      rw [hblocked]
      funext n
      simp [Process.handlerMask, h.action_full sig act' hact', sigfillset]
    rw [hz] at hsleep
    refine
      { action_full := by rw [haction]; exact h.action_full
        awake := fun hnone => by rw [hsleep] at hnone; cases hnone
        restore_full := fun z' hz' => ?_
        handling := Or.inr ⟨_, by rw [hnew, hframes], hfull⟩ }
    rw [hsleep] at hz'
    cases hz'
    exact h.restore_full z hz

theorem OneAtATime.send
    (h : OneAtATime p)
    (sig : Signal) :
    OneAtATime (p.send sig) :=
  { h with }

theorem OneAtATime.sigsuspend
    (h : OneAtATime p)
    (hawake : p.sleep = none)
    (mask : SigSet) :
    OneAtATime (p.sigsuspend mask) where
  action_full := h.action_full
  awake hnone := by cases hnone
  restore_full z hz := by
    cases hz
    exact (h.awake hawake).2
  handling := Or.inl (h.awake hawake).1

theorem OneAtATime.wake
    (h : OneAtATime p)
    (hidle : p.frames = [])
    (hw : p.wake = some q) :
    OneAtATime q := by
  obtain ⟨z, hz, -, rfl⟩ := Process.wake_eq_some hw
  exact
    { action_full := h.action_full
      awake := fun _ => ⟨hidle, h.restore_full z hz⟩
      restore_full := fun z' hz' => by cases hz'
      handling := Or.inl hidle }

theorem OneAtATime.bodyDone
    (h : OneAtATime p) :
    OneAtATime p.bodyDone where
  action_full := h.action_full
  awake hnone := by
    obtain ⟨hframes, hblocked⟩ := h.awake hnone
    exact ⟨by simp [Process.bodyDone, hframes], hblocked⟩
  restore_full := h.restore_full
  handling := by
    rcases h.handling with hnone | ⟨frame, hone, hfull⟩
    · exact Or.inl (by simp [Process.bodyDone, hnone])
    · exact Or.inr ⟨{ frame with ran := true },
        by simp [Process.bodyDone, hone], hfull⟩

theorem OneAtATime.sigreturn
    (h : OneAtATime p) :
    OneAtATime p.sigreturn := by
  rcases h.handling with hnone | ⟨frame, hone, -⟩
  · have hsame : p.sigreturn = p := by
      simp [Process.sigreturn, hnone]
    rw [hsame]
    exact h
  · have hasleep : p.sleep ≠ none := by
      intro hsleep
      rw [(h.awake hsleep).1] at hone
      cases hone
    have hreturn :
        p.sigreturn = { p with blocked := frame.saved, frames := [] } := by
      simp [Process.sigreturn, hone]
    rw [hreturn]
    exact
      { action_full := h.action_full
        awake := fun hsleep => absurd hsleep hasleep
        restore_full := h.restore_full
        handling := Or.inl rfl }

end OneHandlerAtATime

section Ledgers

/-- What happened to the signals of a process. -/
inductive SignalEvent where
  | sent (sig : Signal)
  | handled (sig : Signal)
deriving DecidableEq

/--
Real-time signals are handled once for each time they were sent, except for those
that are queued. Standard signals may be merged, but a signal that was sent is
pending or has been handled since.
-/
structure Ledger
    (pending : Signal → Nat)
    (log : List SignalEvent) : Prop where
  realTime :
    ∀ sig, isRealTime sig = true →
      log.count (.sent sig) = log.count (.handled sig) + pending sig
  standard :
    ∀ sig, isRealTime sig = false →
      log.count (.handled sig) + pending sig ≤ log.count (.sent sig)
  answered :
    ∀ (sig : Signal) (i : Nat), log[i]? = some (.sent sig) →
      0 < pending sig ∨ ∃ j, i < j ∧ log[j]? = some (.handled sig)

variable {log : List SignalEvent} {p q : Process}

theorem ledger_nil :
    Ledger (fun _ => 0) [] where
  realTime _ _ := rfl
  standard _ _ := Nat.le_refl _
  answered _ _ h := by simp at h

/-- The events of an extended log. -/
theorem getElem?_log_append
    {e x : SignalEvent}
    {i : Nat}
    (h : (log ++ [e])[i]? = some x) :
    log[i]? = some x ∨ (i = log.length ∧ e = x) := by
  by_cases hi : i < log.length
  · rw [List.getElem?_append_left hi] at h
    exact Or.inl h
  · rw [List.getElem?_append_right (Nat.le_of_not_lt hi)] at h
    obtain ⟨hzero, hx⟩ := List.getElem?_eq_some_iff.mp h
    rw [List.length_singleton] at hzero
    refine Or.inr ⟨by omega, ?_⟩
    simpa using hx

/-- Sending a signal. -/
theorem Ledger.send
    (h : Ledger p.pending log)
    (sig : Signal) :
    Ledger (p.send sig).pending (log ++ [.sent sig]) where
  realTime n hn := by
    have hbefore := h.realTime n hn
    by_cases heq : n = sig
    · subst heq
      simp [Process.send, hn, List.count_append, hbefore, Nat.add_assoc]
    · simp [Process.send, List.count_append, hbefore, heq, Ne.symm heq]
  standard n hn := by
    have hbefore := h.standard n hn
    by_cases heq : n = sig
    · subst heq
      simp [Process.send, hn, List.count_append]
      omega
    · simpa [Process.send, List.count_append, heq, Ne.symm heq] using hbefore
  answered n i hi := by
    by_cases heq : n = sig
    · subst heq
      left
      simp only [Process.send, Function.update_self]
      split <;> omega
    · rcases getElem?_log_append hi with hold | ⟨-, hnew⟩
      · rcases h.answered n i hold with hpos | ⟨j, hij, hj⟩
        · left
          simpa [Process.send, heq] using hpos
        · obtain ⟨hlt, -⟩ := List.getElem?_eq_some_iff.mp hj
          exact Or.inr ⟨j, hij, by rw [List.getElem?_append_left hlt]; exact hj⟩
      · cases hnew
        exact absurd rfl heq

/-- Delivering a signal to its handler. -/
theorem Ledger.deliver
    (h : Ledger p.pending log)
    {sig : Signal}
    (hd : p.deliver sig = some q) :
    Ledger q.pending (log ++ [.handled sig]) := by
  obtain ⟨-, hpos, -, hpending, -⟩ := Process.deliver_eq_some hd
  rw [hpending]
  refine
    { realTime := fun n hn => ?_
      standard := fun n hn => ?_
      answered := fun n i hi => ?_ }
  · have hbefore := h.realTime n hn
    by_cases heq : n = sig
    · subst heq
      simp [List.count_append, hbefore]
      omega
    · simp [List.count_append, hbefore, heq, Ne.symm heq]
  · have hbefore := h.standard n hn
    by_cases heq : n = sig
    · subst heq
      simp [List.count_append]
      omega
    · simpa [List.count_append, heq, Ne.symm heq] using hbefore
  · rcases getElem?_log_append hi with hold | ⟨-, hnew⟩
    · obtain ⟨hlt, -⟩ := List.getElem?_eq_some_iff.mp hold
      by_cases heq : n = sig
      · subst heq
        exact Or.inr ⟨log.length, hlt, by simp⟩
      · rcases h.answered n i hold with hleft | ⟨j, hij, hj⟩
        · left
          simpa [heq] using hleft
        · obtain ⟨hjlt, -⟩ := List.getElem?_eq_some_iff.mp hj
          exact Or.inr ⟨j, hij, by rw [List.getElem?_append_left hjlt]; exact hj⟩
    · cases hnew

end Ledgers

end Foundation
end OsSeminars
