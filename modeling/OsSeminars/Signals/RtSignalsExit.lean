import OsSeminars.Signals.RtSignalsRuns

/-!
# `rt-signals.c`: the exit of the child

The kernel delivers the lowest-numbered of the pending signals that are not
blocked. `SIGINT` has a lower number than `SIGRTMIN`, so from the moment it is
sent no further `SIGRTMIN` is delivered: the handler of `SIGINT` runs next, and
it exits.

What is still queued at that moment is therefore lost. The `sleep(1)` of the
parent makes this unlikely, but nothing makes the parent wait for the child.
-/

namespace OsSeminars
namespace Signals
namespace RtSignals

open Foundation

/-- No signal with a lower number could be delivered instead. -/
def LowestFirst
    (s : State) :
    Label → Prop
  | .deliver sig =>
      ∀ n, n < sig → s.child.pending n = 0 ∨ s.child.blocked n = true
  | _ => True

instance (s : State) :
    (a : Label) → Decidable (LowestFirst s a)
  | .parent => inferInstanceAs (Decidable True)
  | .child => inferInstanceAs (Decidable True)
  | .deliver sig =>
      inferInstanceAs (Decidable (∀ n, n < sig → _ = 0 ∨ _ = true))

/-- How many `SIGRTMIN` were queued for the child when `SIGINT` was sent to it. -/
def recordQueue
    (s : State)
    (a : Label)
    (queued : Option Nat) :
    Option Nat :=
  match a, s.parent with
  | .parent, .sendInt => some (s.child.pending sigrtmin)
  | _, _ => queued

/-- Parent and child after `fork`, with the delivery order of the kernel. -/
def systemLowestFirst
    (c : Config) :
    TransitionSystem State Label :=
  .ofProgram (fun s => s = start c) LowestFirst (next c)

/-- The same runs with the history of the signals and the length of the queue at
the exit request. -/
def systemWithQueue
    (c : Config) :
    TransitionSystem (State × List SignalEvent × Option Nat) Label :=
  (systemLowestFirst c).withHistory ([], none)
    (fun s a h => (recordSignal c s a h.1, recordQueue s a h.2))

/-- The parent has sent `SIGINT`. -/
def Requested : ParentPc → Prop
  | .waitpid => True
  | .finished => True
  | _ => False

/-- The next thing that happens to the child is that it exits. -/
def Ending
    (p : Process) :
    Prop :=
  p.terminated = true ∨ 0 < p.pending sigint ∨
    ∃ frame, p.frames = [frame] ∧ frame.signal = sigint ∧ frame.ran = false

/-- The handler of `SIGINT` is not involved yet. -/
structure NotEnding (p : Process) : Prop where
  alive : p.terminated = false
  not_pending : p.pending sigint = 0
  not_handled : ∀ frame ∈ p.frames, frame.signal ≠ sigint

/-- The child waits for its signals with nothing blocked. -/
structure OpenSleep (p : Process) : Prop where
  asleep : p.sleep ≠ none → p.frames = [] → p.blocked = sigemptyset
  saved : ∀ frame ∈ p.frames, frame.saved = sigemptyset

structure ExitInv
    (s : State)
    (queued : Option Nat) :
    Prop where
  mask_eq : s.mask = sigemptyset
  openSleep : OpenSleep s.child
  before : ¬ Requested s.parent → queued = none ∧ NotEnding s.child
  after :
    Requested s.parent →
      queued = some (s.child.pending sigrtmin) ∧ Ending s.child

section Steps

variable {c : Config} {s t : State} {p q : Process}

/-- With at most one handler running, the innermost one is the only one. -/
theorem only_frame
    {frame : Frame}
    {rest : List Frame}
    (h : OneAtATime p)
    (hframes : p.frames = frame :: rest) :
    p.frames = [frame] := by
  have hle := h.frames_le_one
  rw [hframes, List.length_cons] at hle
  have hrest : rest = [] := List.length_eq_zero_iff.mp (by omega)
  rw [hframes, hrest]

theorem exitInv_start
    (c : Config) :
    ExitInv (start c) none where
  mask_eq := rfl
  openSleep :=
    { asleep := fun h => absurd rfl h
      saved := fun frame h => by cases h }
  before := fun _ =>
    ⟨rfl,
      { alive := rfl
        not_pending := rfl
        not_handled := fun frame h => by cases h }⟩
  after := fun h => h.elim

/-- A step of the parent: it sends a signal before the request, or the request,
or nothing. -/
theorem parentNext_cases
    (h : parentNext c s = some t) :
    t.mask = s.mask ∧
    ((∃ sig, (sig = sigusr1 ∨ sig = sigrtmin) ∧ s.parent ≠ .sendInt ∧
        ¬ Requested s.parent ∧ ¬ Requested t.parent ∧ t.child = s.child.send sig) ∨
      (s.parent = .sendInt ∧ Requested t.parent ∧ t.child = s.child.send sigint) ∨
      (s.parent ≠ .sendInt ∧ (Requested s.parent ↔ Requested t.parent) ∧
        t.child = s.child)) := by
  cases hpc : s.parent with
  | sendUsr1 i =>
      simp only [parentNext, hpc] at h
      split_ifs at h <;> cases h
      · exact ⟨rfl, Or.inl ⟨sigusr1, Or.inl rfl, by simp, id, id, rfl⟩⟩
      · exact ⟨rfl, Or.inr (Or.inr ⟨by simp, Iff.rfl, rfl⟩)⟩
  | sendRtmin i =>
      simp only [parentNext, hpc] at h
      split_ifs at h <;> cases h
      · exact ⟨rfl, Or.inl ⟨sigrtmin, Or.inr rfl, by simp, id, id, rfl⟩⟩
      · exact ⟨rfl, Or.inr (Or.inr ⟨by simp, Iff.rfl, rfl⟩)⟩
  | sleep =>
      simp only [parentNext, hpc, Option.some.injEq] at h
      subst h
      exact ⟨rfl, Or.inr (Or.inr ⟨by simp, Iff.rfl, rfl⟩)⟩
  | announce =>
      simp only [parentNext, hpc, Option.some.injEq] at h
      subst h
      exact ⟨rfl, Or.inr (Or.inr ⟨by simp, Iff.rfl, rfl⟩)⟩
  | sendInt =>
      simp only [parentNext, hpc, Option.some.injEq] at h
      subst h
      exact ⟨rfl, Or.inr (Or.inl ⟨rfl, trivial, rfl⟩)⟩
  | waitpid =>
      simp only [parentNext, hpc] at h
      split_ifs at h
      cases h
      exact ⟨rfl, Or.inr (Or.inr ⟨by simp, Iff.rfl, rfl⟩)⟩
  | finished =>
      simp [parentNext, hpc] at h

theorem exitInv_parent
    {queued : Option Nat}
    (h : ExitInv s queued)
    (hnext : parentNext c s = some t) :
    ExitInv t (recordQueue s .parent queued) := by
  have hkeep : s.parent ≠ .sendInt → recordQueue s .parent queued = queued := by
    intro hne
    cases hpc : s.parent <;> simp_all [recordQueue]
  obtain ⟨hmask, hcases⟩ := parentNext_cases hnext
  rcases hcases with
    ⟨sig, hsig, hne, hbefore, hbefore', hchild⟩ |
    ⟨hpc, hafter, hchild⟩ |
    ⟨hne, hsame, hchild⟩
  · rw [hkeep hne]
    obtain ⟨hnone, hnot⟩ := h.before hbefore
    have hother : sigint ≠ sig := by
      rcases hsig with rfl | rfl <;> decide
    refine
      { mask_eq := hmask.trans h.mask_eq
        openSleep := by rw [hchild]; exact ⟨h.openSleep.asleep, h.openSleep.saved⟩
        before := fun _ => ⟨hnone, ?_⟩
        after := fun hreq => absurd hreq hbefore' }
    rw [hchild]
    refine ⟨hnot.alive, ?_, hnot.not_handled⟩
    simpa [Process.send, hother] using hnot.not_pending
  · have hrecord : recordQueue s .parent queued = some (s.child.pending sigrtmin) := by
      simp only [recordQueue, hpc]
    rw [hrecord]
    refine
      { mask_eq := hmask.trans h.mask_eq
        openSleep := by rw [hchild]; exact ⟨h.openSleep.asleep, h.openSleep.saved⟩
        before := fun hreq => absurd hafter hreq
        after := fun _ => ?_ }
    rw [hchild]
    constructor
    · simp [Process.send, sigint, sigrtmin]
    · exact Or.inr (Or.inl (by simp [Process.send, isRealTime, sigint, sigrtmin]))
  · rw [hkeep hne]
    refine
      { mask_eq := hmask.trans h.mask_eq
        openSleep := by rw [hchild]; exact h.openSleep
        before := fun hreq => ?_
        after := fun hreq => ?_ }
    · rw [hchild]
      exact h.before (fun hs => hreq (hsame.mp hs))
    · rw [hchild]
      exact h.after (hsame.mpr hreq)

/-- A step of the child that changes neither the request nor the queue. -/
theorem ExitInv.setChild
    {queued : Option Nat}
    (h : ExitInv s queued)
    (hpending : p.pending = s.child.pending)
    (hopen : OpenSleep p)
    (hbefore : NotEnding s.child → NotEnding p)
    (hafter : Ending s.child → Ending p)
    {output : List String} :
    ExitInv { s with child := p, childOutput := output } queued where
  mask_eq := h.mask_eq
  openSleep := hopen
  before := fun hreq => ⟨(h.before hreq).1, hbefore (h.before hreq).2⟩
  after := fun hreq => by
    obtain ⟨hqueued, hending⟩ := h.after hreq
    exact ⟨by rw [hqueued, hpending], hafter hending⟩

/-- While no handler runs, the child is ending because `SIGINT` is pending. -/
theorem Ending.pending_of_idle
    (h : Ending p)
    (halive : p.terminated = false)
    (hidle : p.frames = []) :
    0 < p.pending sigint := by
  rcases h with hover | hpending | ⟨frame, hframes, -⟩
  · rw [halive] at hover
    cases hover
  · exact hpending
  · rw [hidle] at hframes
    cases hframes

theorem exitInv_sigreturn
    {queued : Option Nat}
    {frame : Frame}
    (h : ExitInv s queued)
    (hframes : s.child.frames = [frame])
    (hran : frame.ran = true) :
    ExitInv { s with child := s.child.sigreturn } queued := by
  have hreturn :
      s.child.sigreturn =
        { s.child with blocked := frame.saved, frames := [] } := by
    simp [Process.sigreturn, hframes]
  rw [hreturn]
  refine h.setChild ?_ ?_ ?_ ?_
  · rfl
  · refine ⟨fun _ _ => ?_, fun frame' h' => by cases h'⟩
    exact h.openSleep.saved frame (by simp [hframes])
  · intro hnot
    exact ⟨hnot.alive, hnot.not_pending, fun frame' h' => by cases h'⟩
  · rintro (hover | hpending | ⟨frame', hframes', -, hran'⟩)
    · exact Or.inl hover
    · exact Or.inr (Or.inl hpending)
    · rw [hframes] at hframes'
      cases hframes'
      rw [hran] at hran'
      cases hran'

theorem exitInv_handlerBody
    {queued : Option Nat}
    {frame : Frame}
    (h : ExitInv s queued)
    (hframes : s.child.frames = [frame]) :
    ExitInv (handlerBody s frame.signal) queued := by
  have hsaved := h.openSleep.saved frame (by simp [hframes])
  have hdone : s.child.bodyDone =
      { s.child with frames := [{ frame with ran := true }] } := by
    simp [Process.bodyDone, hframes]
  simp only [handlerBody, hdone]
  by_cases hint : frame.signal = sigint
  · rw [if_pos hint]
    refine h.setChild ?_ ?_ ?_ (fun _ => Or.inl ?_)
    · rfl
    · refine ⟨fun _ hnil => (by cases hnil), fun frame' h' => ?_⟩
      rw [List.mem_singleton.mp h']
      exact hsaved
    · intro hnot
      exact absurd hint (hnot.not_handled frame (by simp [hframes]))
    · rfl
  · rw [if_neg hint]
    refine h.setChild ?_ ?_ ?_ ?_
    · rfl
    · refine ⟨fun _ hnil => (by cases hnil), fun frame' h' => ?_⟩
      rw [List.mem_singleton.mp h']
      exact hsaved
    · intro hnot
      refine ⟨hnot.alive, hnot.not_pending, fun frame' h' => ?_⟩
      rw [List.mem_singleton.mp h']
      exact hint
    · rintro (hover | hpending | ⟨frame', hframes', hsignal, -⟩)
      · exact Or.inl hover
      · exact Or.inr (Or.inl hpending)
      · rw [hframes] at hframes'
        cases hframes'
        exact absurd hsignal hint

/-- Entering and leaving `sigsuspend`. -/
theorem exitInv_suspend
    {queued : Option Nat}
    (h : ExitInv s queued)
    (hidle : s.child.frames = [])
    (hpending : p.pending = s.child.pending)
    (hover : p.terminated = s.child.terminated)
    (hframes : p.frames = [])
    (hblocked : p.sleep ≠ none → p.blocked = sigemptyset) :
    ExitInv { s with child := p } queued := by
  refine h.setChild hpending ?_ ?_ ?_
  · refine ⟨fun hsleep _ => hblocked hsleep, fun frame h' => ?_⟩
    rw [hframes] at h'
    cases h'
  · intro hnot
    refine ⟨hover.trans hnot.alive, ?_, fun frame h' => ?_⟩
    · rw [hpending]
      exact hnot.not_pending
    · rw [hframes] at h'
      cases h'
  · rintro (hend | hpos | ⟨frame, hframe, -⟩)
    · exact Or.inl (hover.trans hend)
    · refine Or.inr (Or.inl ?_)
      rw [hpending]
      exact hpos
    · rw [hidle] at hframe
      cases hframe

theorem exitInv_child
    {queued : Option Nat}
    (h : ExitInv s queued)
    (hinv : ChildInv s.child)
    (hnext : childNext s = some t) :
    ExitInv t queued := by
  obtain ⟨-, hcases⟩ := childNext_cases hnext
  rcases hcases with
    ⟨frame, rest, hframes, hran, rfl⟩ |
    ⟨frame, rest, hframes, -, rfl⟩ |
    ⟨hidle, -, rfl⟩ |
    ⟨hidle, p, hwake, rfl⟩
  · exact exitInv_sigreturn h (only_frame hinv.oneAtATime hframes) hran
  · exact exitInv_handlerBody h (only_frame hinv.oneAtATime hframes)
  · exact exitInv_suspend h hidle rfl rfl hidle (fun _ => h.mask_eq)
  · obtain ⟨z, -, -, rfl⟩ := Process.wake_eq_some hwake
    exact exitInv_suspend h hidle rfl rfl hidle (fun hsleep => absurd rfl hsleep)

/-- A signal is delivered to a child that waits with nothing blocked. -/
theorem open_of_deliver
    {sig : Signal}
    (hopen : OpenSleep p)
    (hone : OneAtATime p)
    (hd : p.deliver sig = some q) :
    p.frames = [] ∧ p.blocked = sigemptyset := by
  obtain ⟨⟨z, hz⟩, hidle⟩ := hone.asleep_of_deliver hd
  exact ⟨hidle, hopen.asleep (by simp [hz]) hidle⟩

/-- The only signal that is delivered after the request is `SIGINT`. -/
theorem deliver_of_ending
    {sig : Signal}
    (hinv : ChildInv s.child)
    (hopen : OpenSleep s.child)
    (hending : Ending s.child)
    (hlowest : LowestFirst s (.deliver sig))
    (hd : s.child.deliver sig = some q) :
    sig = sigint := by
  obtain ⟨hidle, hblocked⟩ := open_of_deliver hopen hinv.oneAtATime hd
  obtain ⟨halive, hpos, -⟩ := Process.deliver_eq_some hd
  have hint := hending.pending_of_idle halive hidle
  have hmem := hinv.pending_signals sig hpos
  by_contra hne
  have hlt : sigint < sig := by
    simp only [signals, List.mem_cons, List.not_mem_nil, or_false] at hmem
    rcases hmem with rfl | rfl | rfl
    · decide
    · exact absurd rfl hne
    · decide
  rcases hlowest sigint hlt with hzero | hblocked'
  · omega
  · rw [hblocked] at hblocked'
    cases hblocked'

theorem exitInv_deliver
    {queued : Option Nat}
    {sig : Signal}
    (h : ExitInv s queued)
    (hinv : ChildInv s.child)
    (hlowest : LowestFirst s (.deliver sig))
    (hd : s.child.deliver sig = some q) :
    ExitInv { s with child := q } queued := by
  have hact := action_of_deliver hinv hd
  obtain ⟨hidle, hblocked⟩ := open_of_deliver h.openSleep hinv.oneAtATime hd
  obtain ⟨-, hpos, -, hpending, -, hend | hstart⟩ := Process.deliver_eq_some hd
  · rw [hact] at hend
    cases hend.1
  · obtain ⟨act, -, halive, -, hframes, -⟩ := hstart
    rw [hidle] at hframes
    refine
      { mask_eq := h.mask_eq
        openSleep := ⟨fun _ hnil => ?_, fun frame h' => ?_⟩
        before := fun hreq => ?_
        after := fun hreq => ?_ }
    · dsimp only at hnil
      rw [hframes] at hnil
      cases hnil
    · dsimp only at h'
      rw [hframes, List.mem_singleton] at h'
      rw [h']
      exact hblocked
    · obtain ⟨hnone, hnot⟩ := h.before hreq
      have hne : sig ≠ sigint := by
        rintro rfl
        have hzero := hnot.not_pending
        omega
      refine ⟨hnone, halive, ?_, fun frame h' => ?_⟩
      · dsimp only
        rw [hpending, Function.update_of_ne (Ne.symm hne)]
        exact hnot.not_pending
      · dsimp only at h'
        rw [hframes, List.mem_singleton] at h'
        rw [h']
        exact hne
    · obtain ⟨hqueued, hending⟩ := h.after hreq
      have hint := deliver_of_ending hinv h.openSleep hending hlowest hd
      subst hint
      refine ⟨?_, Or.inr (Or.inr ⟨_, hframes, rfl, rfl⟩)⟩
      dsimp only
      rw [hqueued, hpending, Function.update_of_ne (by decide)]

end Steps

section Exit

variable {c : Config} {s : State} {log : List SignalEvent} {queued : Option Nat}

/-- The delivery order only restricts the runs. -/
theorem reachable_withLog
    (h : (systemWithQueue c).Reachable (s, log, queued)) :
    (systemWithLog c).Reachable (s, log) := by
  refine h.invariant
    (I := fun x => (systemWithLog c).Reachable (x.1, x.2.1)) ?_ ?_
  · rintro ⟨s, log, queued⟩ ⟨hs, hlog⟩
    cases hlog
    exact .init ⟨hs, rfl⟩
  · rintro ⟨s, log, queued⟩ a ⟨t, log', queued'⟩ hreach ⟨⟨-, hnext⟩, hrecord⟩
    cases hrecord
    exact hreach.step ⟨⟨trivial, hnext⟩, rfl⟩

theorem exitInv_of_reachable
    (h : (systemWithQueue c).Reachable (s, log, queued)) :
    ExitInv s queued := by
  have hboth : ExitInv s queued ∧ (systemWithLog c).Reachable (s, log) := by
    refine h.invariant
      (I := fun x => ExitInv x.1 x.2.2 ∧ (systemWithLog c).Reachable (x.1, x.2.1))
      ?_ ?_
    · rintro ⟨s, log, queued⟩ ⟨hs, hlog⟩
      cases hs
      cases hlog
      exact ⟨exitInv_start c, .init ⟨rfl, rfl⟩⟩
    · rintro ⟨s, log, queued⟩ a ⟨t, log', queued'⟩ ⟨hinv, hreach⟩
        ⟨⟨hlowest, hnext⟩, hrecord⟩
      cases hrecord
      have hchild := (inv_of_reachable hreach).1
      refine ⟨?_, hreach.step ⟨⟨trivial, hnext⟩, rfl⟩⟩
      cases a with
      | parent =>
          exact exitInv_parent hinv hnext
      | child =>
          have hkept := exitInv_child hinv hchild hnext
          cases hpc : s.parent <;> simpa [recordQueue, hpc] using hkept
      | deliver sig =>
          obtain ⟨p, hd, rfl⟩ := Option.map_eq_some_iff.mp hnext
          have hkept := exitInv_deliver hinv hchild hlowest hd
          cases hpc : s.parent <;> simpa [recordQueue, hpc] using hkept
  exact hboth.1

/-- When the child has exited, every `SIGRTMIN` sent to it has been handled if and
only if none was queued at the moment when `SIGINT` was sent. -/
theorem all_handled_iff_queue_empty
    (c : Config)
    (s : State)
    (log : List SignalEvent)
    (queued : Option Nat)
    (h : (systemWithQueue c).Reachable (s, log, queued))
    (hexited : s.child.terminated = true) :
    log.count (.handled sigrtmin) = log.count (.sent sigrtmin) ↔
      queued = some 0 := by
  have hinv := exitInv_of_reachable h
  obtain ⟨-, hledger⟩ := inv_of_reachable (reachable_withLog h)
  have hrequested : Requested s.parent := by
    by_contra hnot
    rw [(hinv.before hnot).2.alive] at hexited
    cases hexited
  have hcount := hledger.realTime sigrtmin rfl
  rw [(hinv.after hrequested).1, hcount, Option.some.injEq]
  omega

/-- One `SIGRTMIN` and no `SIGUSR1`. -/
def oneRtmin : Config where
  usr1Count := 0
  rtminCount := 1
  inheritedMask := sigemptyset

/-- The child handles the signal before the parent asks it to finish. -/
def handledInTime : List Label :=
  [.parent, .parent, .parent, .child, .deliver sigrtmin, .child, .child, .child,
    .child, .parent, .parent, .parent, .deliver sigint, .child]

theorem all_handled_oneRtmin :
    ∃ s log queued,
      (systemWithQueue oneRtmin).Reachable (s, log, queued) ∧
      s.child.terminated = true ∧
      log.count (.handled sigrtmin) = log.count (.sent sigrtmin) := by
  have hstart : (systemLowestFirst oneRtmin).Reachable (start oneRtmin) :=
    .init rfl
  obtain ⟨s, hs, htest⟩ :=
    TransitionSystem.exists_reachable_of_exec handledInTime
      (fun s : State => decide (s.child.terminated = true ∧ s.parent = .waitpid ∧
        s.child.pending sigrtmin = 0)) hstart (by decide) (by decide)
  obtain ⟨hexited, hwaiting, hempty⟩ := of_decide_eq_true htest
  obtain ⟨⟨log, queued⟩, hlog⟩ :
      ∃ h, (systemWithQueue oneRtmin).Reachable (s, h) :=
    hs.exists_history
  have hrequested : Requested s.parent := by
    rw [hwaiting]
    trivial
  have hqueued := ((exitInv_of_reachable hlog).after hrequested).1
  rw [hempty] at hqueued
  exact ⟨s, log, queued, hlog, hexited,
    (all_handled_iff_queue_empty oneRtmin s log queued hlog hexited).mpr hqueued⟩

/-- The numbers of the source. -/
def tenOfEach : Config where
  usr1Count := 10
  rtminCount := 10
  inheritedMask := sigemptyset

/-- The child is not scheduled before the parent has sent everything; its first
`sigsuspend` then starts the handler of `SIGINT`. -/
def delayedChild : List Label :=
  List.replicate 25 .parent ++ [.child, .deliver sigint, .child]

theorem not_all_handled_delayedChild :
    ¬ ∀ s log queued,
      (systemWithQueue tenOfEach).Reachable (s, log, queued) →
      s.child.terminated = true →
      log.count (.handled sigrtmin) = log.count (.sent sigrtmin) := by
  intro hall
  have hstart : (systemLowestFirst tenOfEach).Reachable (start tenOfEach) :=
    .init rfl
  obtain ⟨s, hs, htest⟩ :=
    TransitionSystem.exists_reachable_of_exec delayedChild
      (fun s : State => decide (s.child.terminated = true ∧
        s.child.pending sigrtmin = 10)) hstart (by decide) (by decide)
  obtain ⟨hexited, hten⟩ := of_decide_eq_true htest
  obtain ⟨⟨log, queued⟩, hlog⟩ :
      ∃ h, (systemWithQueue tenOfEach).Reachable (s, h) :=
    hs.exists_history
  have hcount := (inv_of_reachable (reachable_withLog hlog)).2.realTime sigrtmin rfl
  have hequal := hall s log queued hlog hexited
  omega

end Exit

end RtSignals
end Signals
end OsSeminars
