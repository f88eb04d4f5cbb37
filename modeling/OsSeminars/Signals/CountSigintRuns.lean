import OsSeminars.Signals.CountSigint

/-!
# 16-signals/count-sigint.c: the termination request

A `SIGTERM` that arrives between the test of `done` and the entry into `pause`
is lost: `pause` then waits for a further signal. If it is never delivered in
this window, then `done` is still 0 whenever `pause` has been entered and no
handler has run since.
-/

namespace OsSeminars
namespace Signals
namespace CountSigint

open Foundation

/-- The process sleeps in `pause` and no handler has run since it was entered. -/
def BlockedInPause (s : State) : Prop :=
  s.pc = .inPause ∧
  s.process.frames = [] ∧
  ∃ z, s.process.sleep = some z ∧ z.woken = false

/-- The process was asked to end, but nothing is left that could wake it. -/
def RequestLost (s : State) : Prop :=
  s.done = 1 ∧ BlockedInPause s ∧ ∀ sig, s.process.pending sig = 0

section Invariants

structure RequestInv (s : State) : Prop where
  pending_two :
    ∀ sig, 0 < s.process.pending sig → sig = sigint ∨ sig = sigterm
  window :
    s.pc = .pause →
      s.done = 0 ∧ ∀ frame ∈ s.process.frames, frame.signal = sigint
  asleep :
    ∀ z, s.process.sleep = some z → z.woken = false →
      s.done = 0 ∧ s.process.frames = []

variable {c : Config} {s t : State}

theorem requestInv_start
    (c : Config) :
    RequestInv (start c) where
  pending_two sig h := absurd h (Nat.lt_irrefl 0)
  window h := by cases h
  asleep z h := by cases h

theorem requestInv_send
    {sig : Signal}
    (h : RequestInv s)
    (hsig : sig = sigint ∨ sig = sigterm) :
    RequestInv { s with process := s.process.send sig } where
  pending_two n hn := by
    by_cases heq : n = sig
    · rw [heq]
      exact hsig
    · refine h.pending_two n ?_
      simpa [Process.send, heq] using hn
  window := h.window
  asleep := h.asleep

theorem requestInv_deliver
    {sig : Signal}
    {p : Process}
    (h : RequestInv s)
    (houtside : sig = sigterm → s.pc ≠ .pause)
    (hd : s.process.deliver sig = some p) :
    RequestInv { s with process := p } := by
  obtain ⟨-, hpos, -, hpending, -, hcase⟩ := Process.deliver_eq_some hd
  have htwo : ∀ n, 0 < p.pending n → n = sigint ∨ n = sigterm := by
    intro n hn
    rw [hpending] at hn
    by_cases heq : n = sig
    · rw [heq]
      exact h.pending_two sig hpos
    · exact h.pending_two n (by rwa [Function.update_of_ne heq] at hn)
  rcases hcase with ⟨-, -, hframes, hsleep⟩ | ⟨act, -, -, -, hframes, hsleep⟩
  · refine ⟨htwo, ?_, ?_⟩
    · dsimp only
      rw [hframes]
      exact h.window
    · dsimp only
      rw [hframes, hsleep]
      exact h.asleep
  · refine ⟨htwo, ?_, ?_⟩
    · intro hpc
      obtain ⟨hdone, hall⟩ := h.window hpc
      refine ⟨hdone, ?_⟩
      dsimp only
      rw [hframes, List.forall_mem_cons]
      -- only `SIGINT` is delivered in the window
      have hint : sig = sigint := by
        rcases h.pending_two sig hpos with hint | hterm
        · exact hint
        · exact absurd hpc (houtside hterm)
      exact ⟨hint, hall⟩
    · intro z hz hasleep
      dsimp only at hz
      rw [hsleep] at hz
      obtain ⟨z', -, rfl⟩ := Option.map_eq_some_iff.mp hz
      cases hasleep

theorem requestInv_mainStatement
    (h : RequestInv s)
    (hidle : s.process.frames = [])
    (hnext : mainStatement c s = some t) :
    RequestInv t := by
  unfold mainStatement at hnext
  cases hpc : s.pc with
  | sigactionInt =>
      rw [hpc] at hnext
      cases hnext
      exact ⟨h.pending_two, fun hp => (by cases hp), h.asleep⟩
  | sigactionTerm =>
      rw [hpc] at hnext
      cases hnext
      exact ⟨h.pending_two, fun hp => (by cases hp), h.asleep⟩
  | printPid =>
      rw [hpc] at hnext
      cases hnext
      exact ⟨h.pending_two, fun hp => (by cases hp), h.asleep⟩
  | check =>
      rw [hpc] at hnext
      cases hnext
      by_cases hdone : s.done = 0
      · rw [if_pos hdone]
        exact ⟨h.pending_two, fun _ => ⟨hdone, by simp [hidle]⟩, h.asleep⟩
      · rw [if_neg hdone]
        exact ⟨h.pending_two, fun hp => (by cases hp), h.asleep⟩
  | pause =>
      rw [hpc] at hnext
      cases hnext
      exact ⟨h.pending_two, fun hp => (by cases hp),
        fun _ _ _ => ⟨(h.window hpc).1, hidle⟩⟩
  | inPause =>
      rw [hpc] at hnext
      obtain ⟨p, hwake, rfl⟩ := Option.map_eq_some_iff.mp hnext
      obtain ⟨z, -, -, rfl⟩ := Process.wake_eq_some hwake
      exact ⟨h.pending_two, fun hp => (by cases hp),
        fun z' hz' => (by cases hz')⟩
  | printCounter =>
      rw [hpc] at hnext
      cases hnext
      exact ⟨h.pending_two, fun hp => (by cases hp), h.asleep⟩
  | exited =>
      rw [hpc] at hnext
      cases hnext

/-- A handler that runs in the window is the one of `SIGINT`, and `pause` has
been left by the time a handler runs. -/
theorem requestInv_handler
    {frame : Frame}
    {rest : List Frame}
    (h : RequestInv s)
    (hframes : s.process.frames = frame :: rest) :
    RequestInv
      (sighandler { s with process := s.process.bodyDone } frame.signal) := by
  have hbody : s.process.bodyDone.frames = { frame with ran := true } :: rest := by
    simp [Process.bodyDone, hframes]
  have hawake : ∀ z, s.process.sleep = some z → z.woken ≠ false := by
    intro z hz hasleep
    rw [(h.asleep z hz hasleep).2] at hframes
    cases hframes
  unfold sighandler
  split_ifs with hint
  · refine ⟨h.pending_two, fun hpc => ?_, fun z hz hasleep => ?_⟩
    · obtain ⟨hdone, hall⟩ := h.window hpc
      rw [hframes, List.forall_mem_cons] at hall
      refine ⟨hdone, ?_⟩
      dsimp only
      rw [hbody, List.forall_mem_cons]
      exact ⟨hint, hall.2⟩
    · exact absurd hasleep (hawake z hz)
  · refine ⟨h.pending_two, fun hpc => ?_, fun z hz hasleep => ?_⟩
    · obtain ⟨-, hall⟩ := h.window hpc
      exact absurd (hall frame (by simp [hframes])) hint
    · exact absurd hasleep (hawake z hz)

theorem requestInv_sigreturn
    {frame : Frame}
    {rest : List Frame}
    (h : RequestInv s)
    (hframes : s.process.frames = frame :: rest) :
    RequestInv { s with process := s.process.sigreturn } := by
  have hreturn :
      s.process.sigreturn =
        { s.process with blocked := frame.saved, frames := rest } := by
    simp [Process.sigreturn, hframes]
  rw [hreturn]
  refine ⟨h.pending_two, fun hpc => ?_, fun z hz hasleep => ?_⟩
  · obtain ⟨hdone, hall⟩ := h.window hpc
    rw [hframes, List.forall_mem_cons] at hall
    exact ⟨hdone, hall.2⟩
  · have hnone := (h.asleep z hz hasleep).2
    rw [hframes] at hnone
    cases hnone

theorem requestInv_mainNext
    (h : RequestInv s)
    (hnext : mainNext c s = some t) :
    RequestInv t := by
  unfold mainNext at hnext
  split_ifs at hnext with hover
  cases hframes : s.process.frames with
  | nil =>
      rw [hframes] at hnext
      exact requestInv_mainStatement h hframes hnext
  | cons frame rest =>
      rw [hframes] at hnext
      dsimp only at hnext
      split_ifs at hnext
      · cases hnext
        exact requestInv_sigreturn h hframes
      · cases hnext
        exact requestInv_handler h hframes

theorem requestInv_of_reachable
    (h : (system c OutsideWindow).Reachable s) :
    RequestInv s := by
  refine h.invariant ?_ ?_
  · rintro _ rfl
    exact requestInv_start c
  · rintro s a t hinv ⟨⟨hany, houtside⟩, hnext⟩
    cases a with
    | main =>
        exact requestInv_mainNext hinv hnext
    | send sig =>
        cases hnext
        exact requestInv_send hinv hany
    | deliver sig =>
        obtain ⟨p, hd, rfl⟩ := Option.map_eq_some_iff.mp hnext
        exact requestInv_deliver hinv (fun hterm => houtside (by rw [hterm])) hd

end Invariants

section Results

/--
In every run in which `SIGTERM` is not delivered between the test of `done` and
the entry into `pause`, the termination request is never lost.
-/
theorem request_not_lost
    (c : Config)
    {s : State}
    (h : (system c OutsideWindow).Reachable s) :
    ¬ RequestLost s := by
  have hinv := requestInv_of_reachable h
  rintro ⟨hdone, ⟨-, -, z, hz, hasleep⟩, -⟩
  rw [(hinv.asleep z hz hasleep).1] at hdone
  cases hdone

def unblocked : Config where
  pid := 1
  inheritedMask := sigemptyset

/-- `SIGTERM` arrives when `pause` is entered already. -/
def termInPause : List Label :=
  [.main, .main, .main, .main, .main, .send sigterm, .deliver sigterm, .main]

theorem request_not_lost_termInPause :
    ∃ s, (system unblocked OutsideWindow).Reachable s ∧
      s.done = 1 ∧ s.pc = .inPause ∧ ¬ RequestLost s := by
  have hstart : (system unblocked OutsideWindow).Reachable (start unblocked) :=
    .init rfl
  obtain ⟨s, hs, htest⟩ :=
    TransitionSystem.exists_reachable_of_exec termInPause
      (fun s => s.done = 1 ∧ s.pc = .inPause) hstart (by decide) (by decide)
  obtain ⟨hdone, hpc⟩ := of_decide_eq_true htest
  exact ⟨s, hs, hdone, hpc, request_not_lost unblocked hs⟩

/-- `SIGTERM` arrives after the test of `done`, before `pause` is entered. -/
def termBeforePause : List Label :=
  [.main, .main, .main, .main, .send sigterm, .deliver sigterm, .main, .main,
    .main]

theorem request_lost_termBeforePause :
    ¬ ∀ s, (system unblocked AnyTime).Reachable s → ¬ RequestLost s := by
  intro hall
  have hstart : (system unblocked AnyTime).Reachable (start unblocked) :=
    .init rfl
  have hrun :=
    TransitionSystem.reachable_of_exec termBeforePause hstart (by decide) rfl
  refine hall _ hrun ⟨rfl, ⟨rfl, rfl, _, rfl, rfl⟩, fun sig => ?_⟩
  by_cases hsig : sig = sigterm
  · subst hsig
    rfl
  · have hnone : ∀ p : Signal → Nat, ∀ k k' : Nat,
        Function.update (Function.update p sigterm k) sigterm k' sig = p sig := by
      intro p k k'
      rw [Function.update_of_ne hsig, Function.update_of_ne hsig]
    exact hnone (fun _ => 0) _ _

end Results

end CountSigint
end Signals
end OsSeminars
