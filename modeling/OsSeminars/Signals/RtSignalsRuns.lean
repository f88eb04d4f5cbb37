import OsSeminars.Signals.RtSignals

/-!
# 16-signals/rt-signals.c: the signals of the child

The mask is full when the child is forked, and `sa_mask` was filled before the
set was emptied for `sigsuspend`. So the child handles one signal at a time and
only inside `sigsuspend`, and no signal is lost: what was sent to it before it
first sleeps waits there as well.
-/

namespace OsSeminars
namespace Signals
namespace RtSignals

open Foundation

/-- The action installed for the three signals. -/
def childAction : SigAction where
  saMask := sigfillset
  nodefer := true

structure ChildInv (p : Process) : Prop where
  oneAtATime : OneAtATime p
  action_eq : ∀ sig ∈ signals, p.action sig = some childAction
  pending_signals : ∀ sig, 0 < p.pending sig → sig ∈ signals

section Setup

theorem action_beforeFork
    (mask : SigSet)
    (sig : Signal) :
    (beforeFork mask).1.action sig =
      if sig ∈ signals then some childAction else none := by
  simp only [beforeFork, signals, List.foldl, Process.sigaction,
    Function.update_apply, Process.blockSignals, Process.started,
    List.mem_cons, List.not_mem_nil, or_false]
  split_ifs <;> simp_all [childAction]

theorem blocked_beforeFork
    (mask : SigSet) :
    (beforeFork mask).1.blocked = sigfillset := by
  funext sig
  simp [beforeFork, signals, Process.sigaction, Process.blockSignals, sigfillset]

theorem childInv_start
    (c : Config) :
    ChildInv (start c).child where
  oneAtATime :=
    { action_full := fun sig act h => by
        have hact : (beforeFork c.inheritedMask).1.action sig = some act := h
        rw [action_beforeFork] at hact
        split_ifs at hact
        cases hact
        rfl
      awake := fun _ => ⟨rfl, blocked_beforeFork c.inheritedMask⟩
      restore_full := fun z h => by cases h
      handling := Or.inl rfl }
  action_eq sig h := by
    have hact := action_beforeFork c.inheritedMask sig
    rw [if_pos h] at hact
    exact hact
  pending_signals sig h := by
    exact absurd h (Nat.lt_irrefl 0)

end Setup

section Preservation

variable {c : Config} {s t : State} {p q : Process}

theorem childInv_send
    {sig : Signal}
    (h : ChildInv p)
    (hsig : sig ∈ signals) :
    ChildInv (p.send sig) where
  oneAtATime := h.oneAtATime.send sig
  action_eq := h.action_eq
  pending_signals n hn := by
    by_cases heq : n = sig
    · rw [heq]
      exact hsig
    · refine h.pending_signals n ?_
      simpa [Process.send, heq] using hn

/-- Every signal that can be delivered has the handler. -/
theorem action_of_deliver
    {sig : Signal}
    (h : ChildInv p)
    (hd : p.deliver sig = some q) :
    p.action sig = some childAction := by
  obtain ⟨-, hpos, -⟩ := Process.deliver_eq_some hd
  exact h.action_eq sig (h.pending_signals sig hpos)

theorem childInv_deliver
    {sig : Signal}
    (h : ChildInv p)
    (hd : p.deliver sig = some q) :
    ChildInv q := by
  have hact := action_of_deliver h hd
  obtain ⟨-, -, -, hpending, haction, -⟩ := Process.deliver_eq_some hd
  refine
    { oneAtATime := h.oneAtATime.deliver hact hd
      action_eq := by rw [haction]; exact h.action_eq
      pending_signals := fun n hn => h.pending_signals n ?_ }
  rw [hpending] at hn
  by_cases heq : n = sig
  · subst heq
    rw [Function.update_self] at hn
    omega
  · rwa [Function.update_of_ne heq] at hn

/-- A step that neither sends nor delivers. -/
theorem childInv_of_oneAtATime
    (h : ChildInv p)
    (hone : OneAtATime q)
    (haction : q.action = p.action)
    (hpending : q.pending = p.pending) :
    ChildInv q where
  oneAtATime := hone
  action_eq := by rw [haction]; exact h.action_eq
  pending_signals := by rw [hpending]; exact h.pending_signals

theorem sigreturn_fields
    (p : Process) :
    p.sigreturn.action = p.action ∧ p.sigreturn.pending = p.pending := by
  unfold Process.sigreturn
  split <;> exact ⟨rfl, rfl⟩

/-- What a step of the child does. -/
theorem childNext_cases
    (h : childNext s = some t) :
    s.child.terminated = false ∧
    ((∃ frame rest, s.child.frames = frame :: rest ∧ frame.ran = true ∧
        t = { s with child := s.child.sigreturn }) ∨
      (∃ frame rest, s.child.frames = frame :: rest ∧ frame.ran = false ∧
        t = handlerBody s frame.signal) ∨
      (s.child.frames = [] ∧ s.child.sleep = none ∧
        t = { s with child := s.child.sigsuspend s.mask }) ∨
      (s.child.frames = [] ∧ ∃ p, s.child.wake = some p ∧
        t = { s with child := p })) := by
  simp only [childNext] at h
  split_ifs at h with hover
  refine ⟨eq_false_of_ne_true hover, ?_⟩
  cases hframes : s.child.frames with
  | cons frame rest =>
      rw [hframes] at h
      dsimp only at h
      split_ifs at h with hran
      · exact Or.inl ⟨frame, rest, rfl, hran, (Option.some.inj h).symm⟩
      · exact Or.inr (Or.inl ⟨frame, rest, rfl,
          eq_false_of_ne_true hran, (Option.some.inj h).symm⟩)
  | nil =>
      rw [hframes] at h
      dsimp only at h
      cases hsleep : s.child.sleep with
      | none =>
          rw [hsleep] at h
          exact Or.inr (Or.inr (Or.inl ⟨rfl, rfl, (Option.some.inj h).symm⟩))
      | some z =>
          rw [hsleep] at h
          obtain ⟨p, hwake, rfl⟩ := Option.map_eq_some_iff.mp h
          exact Or.inr (Or.inr (Or.inr ⟨rfl, p, hwake, rfl⟩))

/-- A step of the child keeps its invariant and its pending signals. -/
theorem childInv_childNext
    (h : ChildInv s.child)
    (hnext : childNext s = some t) :
    ChildInv t.child ∧ t.child.pending = s.child.pending := by
  obtain ⟨-, hcases⟩ := childNext_cases hnext
  rcases hcases with
    ⟨frame, rest, -, -, rfl⟩ |
    ⟨frame, rest, -, -, rfl⟩ |
    ⟨-, hsleep, rfl⟩ |
    ⟨hidle, p, hwake, rfl⟩
  · obtain ⟨haction, hpending⟩ := sigreturn_fields s.child
    exact ⟨childInv_of_oneAtATime h h.oneAtATime.sigreturn haction hpending,
      hpending⟩
  · have hdone := h.oneAtATime.bodyDone
    unfold handlerBody
    dsimp only
    split_ifs with hint
    · exact ⟨childInv_of_oneAtATime h { hdone with } rfl rfl, rfl⟩
    · exact ⟨childInv_of_oneAtATime h hdone rfl rfl, rfl⟩
  · exact ⟨childInv_of_oneAtATime h
      (h.oneAtATime.sigsuspend hsleep s.mask) rfl rfl, rfl⟩
  · have hone := h.oneAtATime.wake hidle hwake
    obtain ⟨z', -, -, rfl⟩ := Process.wake_eq_some hwake
    exact ⟨childInv_of_oneAtATime h hone rfl rfl, rfl⟩

/-- A step of the parent sends one of the three signals, or nothing. -/
theorem parentNext_child
    (hnext : parentNext c s = some t) :
    (∃ sig ∈ signals, sending c s = some sig ∧
      t.child = s.child.send sig) ∨
    (sending c s = none ∧ t.child = s.child) := by
  unfold parentNext at hnext
  unfold sending
  cases hpc : s.parent with
  | sendUsr1 i =>
      rw [hpc] at hnext
      dsimp only at hnext ⊢
      split_ifs at hnext ⊢ with hi
      · cases hnext
        exact Or.inl ⟨sigusr1, by simp [signals], rfl, rfl⟩
      · cases hnext
        exact Or.inr ⟨rfl, rfl⟩
  | sendRtmin i =>
      rw [hpc] at hnext
      dsimp only at hnext ⊢
      split_ifs at hnext ⊢ with hi
      · cases hnext
        exact Or.inl ⟨sigrtmin, by simp [signals], rfl, rfl⟩
      · cases hnext
        exact Or.inr ⟨rfl, rfl⟩
  | sleep =>
      rw [hpc] at hnext
      cases hnext
      exact Or.inr ⟨rfl, rfl⟩
  | announce =>
      rw [hpc] at hnext
      cases hnext
      exact Or.inr ⟨rfl, rfl⟩
  | sendInt =>
      rw [hpc] at hnext
      cases hnext
      exact Or.inl ⟨sigint, by simp [signals], rfl, rfl⟩
  | waitpid =>
      rw [hpc] at hnext
      dsimp only at hnext
      split_ifs at hnext
      cases hnext
      exact Or.inr ⟨rfl, rfl⟩
  | finished =>
      rw [hpc] at hnext
      cases hnext

/-- The invariant of the child and the ledger of its signals. -/
theorem inv_of_reachable
    {log : List SignalEvent}
    (h : (systemWithLog c).Reachable (s, log)) :
    ChildInv s.child ∧ Ledger s.child.pending log := by
  refine h.invariant
    (I := fun x => ChildInv x.1.child ∧ Ledger x.1.child.pending x.2) ?_ ?_
  · rintro ⟨s, log⟩ ⟨hs, hlog⟩
    cases hs
    cases hlog
    exact ⟨childInv_start c, ledger_nil⟩
  · rintro ⟨s, log⟩ a ⟨t, log'⟩ ⟨hinv, hledger⟩ ⟨⟨-, hnext⟩, hrecord⟩
    dsimp only at hinv hledger hnext hrecord ⊢
    subst hrecord
    cases a with
    | parent =>
        rcases parentNext_child hnext with
          ⟨sig, hsig, hsending, hchild⟩ | ⟨hsending, hchild⟩
        · rw [hchild]
          simp only [recordSignal, signalEvent, hsending, Option.map_some,
            Option.toList_some]
          exact ⟨childInv_send hinv hsig, hledger.send sig⟩
        · rw [hchild]
          simp only [recordSignal, signalEvent, hsending, Option.map_none,
            Option.toList_none, List.append_nil]
          exact ⟨hinv, hledger⟩
    | child =>
        obtain ⟨hinv', hpending⟩ := childInv_childNext hinv hnext
        simp only [recordSignal, signalEvent, Option.toList_none,
          List.append_nil, hpending]
        exact ⟨hinv', hledger⟩
    | deliver sig =>
        obtain ⟨p, hd, rfl⟩ := Option.map_eq_some_iff.mp hnext
        have hact := action_of_deliver hinv hd
        simp only [recordSignal, signalEvent, hact, Option.isSome_some,
          if_true, Option.toList_some]
        exact ⟨childInv_deliver hinv hd, hledger.deliver hd⟩

end Preservation

section Results

/--
`rt-signals.c` for any numbers of signals and any interleaving: the handler is
never nested, signals are delivered only during `sigsuspend`, no `SIGRTMIN` is
lost, and a `SIGUSR1` is pending or has been handled since it was sent, with no
more runs of its handler than it was sent.
-/
theorem child_handles_signals
    (c : Config)
    {s : State}
    {log : List SignalEvent}
    (h : (systemWithLog c).Reachable (s, log)) :
    s.child.frames.length ≤ 1 ∧
    (∀ sig t, (system c).step s (.deliver sig) t →
      ∃ z, s.child.sleep = some z) ∧
    log.count (.sent sigrtmin) =
      log.count (.handled sigrtmin) + s.child.pending sigrtmin ∧
    (∀ i : Nat, log[i]? = some (.sent sigusr1) →
      0 < s.child.pending sigusr1 ∨
      ∃ j, i < j ∧ log[j]? = some (.handled sigusr1)) ∧
    log.count (.handled sigusr1) ≤ log.count (.sent sigusr1) := by
  obtain ⟨hinv, hledger⟩ := inv_of_reachable h
  refine ⟨hinv.oneAtATime.frames_le_one, ?_, hledger.realTime sigrtmin rfl,
    hledger.answered sigusr1, ?_⟩
  · rintro sig t ⟨-, hnext⟩
    obtain ⟨p, hd, -⟩ := Option.map_eq_some_iff.mp hnext
    exact (hinv.oneAtATime.asleep_of_deliver hd).1
  · have hle := hledger.standard sigusr1 rfl
    omega

/-- Two signals of each kind, sent before the child first sleeps. -/
def twoOfEach : Config where
  usr1Count := 2
  rtminCount := 2
  inheritedMask := sigemptyset

/-- The child handles `SIGUSR1` and one `SIGRTMIN`. -/
def twoOfEachSchedule : List Label :=
  List.replicate 6 .parent ++
    [.child, .deliver sigusr1, .child, .child, .child,
      .child, .deliver sigrtmin, .child, .child]

theorem child_handles_signals_twoOfEach :
    ∃ s log,
      (systemWithLog twoOfEach).Reachable (s, log) ∧
      s.child.pending sigrtmin = 1 ∧
      log.count (.sent sigrtmin) = log.count (.handled sigrtmin) + 1 := by
  have hstart : (system twoOfEach).Reachable (start twoOfEach) := .init rfl
  obtain ⟨s, hs, htest⟩ :=
    TransitionSystem.exists_reachable_of_exec twoOfEachSchedule
      (fun s => s.child.pending sigrtmin = 1) hstart (by decide) (by decide)
  have hqueued : s.child.pending sigrtmin = 1 := of_decide_eq_true htest
  obtain ⟨log, hlog⟩ := hs.exists_history
  have hcount := (child_handles_signals twoOfEach hlog).2.2.1
  rw [hqueued] at hcount
  exact ⟨s, log, hlog, hqueued, hcount⟩

end Results

end RtSignals
end Signals
end OsSeminars
