import OsSeminars.Foundation.Signals
import OsSeminars.Foundation.TransitionSystem

/-!
# Foundation: waiting for one signal

A process installs a handler, starts something that will raise the signal once, and calls
`pause`. If the handler has run before `pause` is entered, nothing wakes the process any
more. Whether it can still return is therefore not decided by the signal mask alone.

What raises the signal is a `OneShot`: a timer, or a process that ends.
-/

namespace OsSeminars
namespace Foundation

universe u

/-- Something that raises a signal with the last of the steps that it takes. -/
structure OneShot
    (σ : Type u) where
  idle : σ
  started : σ
  /-- the next state, and whether the step raises the signal -/
  step : σ → Option (σ × Bool)
  left : σ → Nat
  left_idle : left idle = 0
  left_started : 0 < left started
  left_of_step : ∀ x y raised, step x = some (y, raised) →
    left y < left x ∧ (raised = true ↔ left y = 0)
  left_of_stop : ∀ x, step x = none ↔ left x = 0

namespace PauseOnce

inductive Pc
  | sigaction
  | start
  | pause
  | inPause
  | returned (status : Nat)
  deriving DecidableEq

structure Config
    (σ : Type u) where
  source : OneShot σ
  sig : Signal
  action : SigAction
  message : String
  /-- starting the source may fail, with a return from `main` -/
  mayFail : Bool
  inheritedMask : SigSet

structure State
    (σ : Type u) where
  process : Process
  pc : Pc
  source : σ
  written : List String

inductive Label
  | main
  | startFails
  | source
  | deliver (sig : Signal)
  deriving DecidableEq

variable {σ : Type u}

section Steps

variable (c : Config σ) (s : State σ)

def start :
    State σ where
  process := .started c.inheritedMask
  pc := .sigaction
  source := c.source.idle
  written := []

/-- The process returns from `main`. -/
def State.return
    (status : Nat) :
    State σ :=
  { s with
    process := { s.process with terminated := true }
    pc := .returned status }

def mainStatement :
    Option (State σ) :=
  match s.pc with
  | .sigaction => some { s with process := s.process.sigaction c.sig c.action, pc := .start }
  | .start => some { s with source := c.source.started, pc := .pause }
  | .pause => some { s with process := s.process.pause, pc := .inPause }
  | .inPause => s.process.wake.map fun p => { s with process := p }.return 0
  | .returned _ => none

/-- The body of the handler. -/
def handler :
    State σ :=
  { s with
    process := s.process.bodyDone
    written := s.written ++ [c.message] }

/-- One step of the innermost running handler, or of `main`. -/
def mainNext :
    Option (State σ) :=
  if s.process.terminated then none
  else
    match s.process.frames with
    | frame :: _ =>
        some (if frame.ran then { s with process := s.process.sigreturn } else handler c s)
    | [] => mainStatement c s

/-- One step of the source; the last one sends the signal. -/
def sourceNext :
    Option (State σ) :=
  (c.source.step s.source).map fun (x, raised) =>
    { s with
      source := x
      process := if raised then s.process.send c.sig else s.process }

def next :
    Label → Option (State σ)
  | .main => mainNext c s
  | .startFails => if c.mayFail ∧ s.pc = .start then some (s.return 1) else none
  | .source => sourceNext c s
  | .deliver sig => (s.process.deliver sig).map fun p => { s with process := p }

end Steps

def Allowed
    (_ : State σ)
    (_ : Label) :
    Prop :=
  True

instance
    (s : State σ)
    (label : Label) :
    Decidable (Allowed s label) :=
  inferInstanceAs (Decidable True)

def system
    (c : Config σ) :
    TransitionSystem (State σ) Label :=
  .ofProgram (fun s => s = start c) Allowed (next c)

/-- The source has not been started, and the process may have given up. -/
def Pc.Early : Pc → Prop
  | sigaction => True
  | start => True
  | returned status => status ≠ 0
  | _ => False

/-- The handlers that have been started so far. -/
def State.handled
    (s : State σ) :
    Nat :=
  s.written.length + s.process.unran

/-- A handler was started since `pause` was entered. -/
def State.woken
    (s : State σ) :
    Bool :=
  s.process.sleep.any (·.woken)

structure Inv
    (c : Config σ)
    (s : State σ) :
    Prop where
  terminated : s.process.terminated = true ↔ ∃ status, s.pc = .returned status
  actions : ∀ n act, s.process.action n = some act → n = c.sig
  installed : s.pc = .sigaction ∨ s.process.action c.sig = some c.action
  pending_other : ∀ n, n ≠ c.sig → s.process.pending n = 0
  early : s.pc.Early →
    s.source = c.source.idle ∧ s.process.pending c.sig = 0 ∧ s.handled = 0
  once : ¬ s.pc.Early →
    (if 0 < c.source.left s.source then 1 else 0) + s.process.pending c.sig + s.handled = 1
  messages : ∀ m ∈ s.written, m = c.message
  frames_le : s.process.frames.length ≤ s.handled
  saved : ∀ frame ∈ s.process.frames, frame.saved = c.inheritedMask
  blocked : s.process.frames = [] → s.process.blocked = c.inheritedMask
  restore : ∀ z, s.process.sleep = some z →
    s.pc = .inPause ∧ z.restore = c.inheritedMask ∧ (z.woken = true → 0 < s.handled)
  asleep : s.pc = .inPause → s.process.sleep ≠ none
  unmasked : 0 < s.handled → c.inheritedMask c.sig = false
  returned : s.pc = .returned 0 → 0 < s.handled ∧ s.process.frames = []

section Invariant

variable {c : Config σ} {s t : State σ}

theorem inv_start :
    Inv c (start c) where
  terminated := ⟨fun h => (nomatch h), fun ⟨_, h⟩ => (nomatch h)⟩
  actions _ _ h := nomatch h
  installed := Or.inl rfl
  pending_other _ _ := rfl
  early _ := ⟨rfl, rfl, rfl⟩
  once h := absurd trivial h
  messages _ h := nomatch h
  frames_le := Nat.le_refl 0
  saved _ h := nomatch h
  blocked _ := rfl
  restore _ h := nomatch h
  asleep h := nomatch h
  unmasked h := absurd h (Nat.lt_irrefl 0)
  returned h := nomatch h

/-- Nothing is handled and nothing is pending at first. -/
theorem Inv.handled_le
    (h : Inv c s) :
    s.process.pending c.sig + s.handled ≤ 1 := by
  by_cases hearly : s.pc.Early
  · obtain ⟨-, hpending, hhandled⟩ := h.early hearly
    omega
  · have honce := h.once hearly
    omega

theorem Inv.source
    (h : Inv c s)
    (hstep : sourceNext c s = some t) :
    Inv c t := by
  simp only [sourceNext, Option.map_eq_some_iff] at hstep
  obtain ⟨⟨x, raised⟩, hx, rfl⟩ := hstep
  obtain ⟨hlower, hraised⟩ := c.source.left_of_step _ _ _ hx
  have hpos : 0 < c.source.left s.source := by omega
  have hlate : ¬ s.pc.Early := by
    intro hearly
    rw [(h.early hearly).1, c.source.left_idle] at hpos
    exact Nat.lt_irrefl 0 hpos
  have honce := h.once hlate
  rw [if_pos hpos] at honce
  have hpending : s.process.pending c.sig = 0 := by omega
  cases raised with
  | false =>
      have hleft : 0 < c.source.left x := by
        simpa [Nat.pos_iff_ne_zero] using hraised
      exact
        { h with
          early := fun hearly => absurd hearly hlate
          once := fun _ => by rw [if_pos hleft]; exact honce }
  | true =>
      have hleft : c.source.left x = 0 := hraised.mp rfl
      have hsent : (s.process.send c.sig).pending c.sig = 1 := by
        simp [Process.send, hpending]
      refine
        { h with
          pending_other := ?_
          early := fun hearly => absurd hearly hlate
          once := fun _ => ?_ }
      · intro n hn
        simp only [if_true, Process.send, Function.update_of_ne hn]
        exact h.pending_other n hn
      · show (if 0 < c.source.left x then 1 else 0) + (s.process.send c.sig).pending c.sig +
          s.handled = 1
        rw [hleft, hsent, if_neg (Nat.lt_irrefl 0)]
        omega

/-- What a delivery finds: nothing has been handled, and no handler runs. -/
theorem Inv.of_deliver
    (h : Inv c s)
    {n : Signal}
    {p : Process}
    (hd : s.process.deliver n = some p) :
    n = c.sig ∧
    s.process.pending c.sig = 1 ∧
    s.handled = 0 ∧
    s.process.frames = [] ∧
    c.inheritedMask c.sig = false ∧
    s.process.action c.sig = some c.action ∧
    ¬ s.pc.Early := by
  obtain ⟨-, hpos, hunblocked, -⟩ := Process.deliver_eq_some hd
  have hn : n = c.sig := by
    by_contra hne
    rw [h.pending_other n hne] at hpos
    exact Nat.lt_irrefl 0 hpos
  subst hn
  have hle := h.handled_le
  have hframes : s.process.frames = [] := by
    have hlength := h.frames_le
    rw [← List.length_eq_zero_iff]
    omega
  have hlate : ¬ s.pc.Early := by
    intro hearly
    rw [(h.early hearly).2.1] at hpos
    exact Nat.lt_irrefl 0 hpos
  have haction : s.process.action c.sig = some c.action := by
    rcases h.installed with hpc | haction
    · rw [hpc] at hlate
      exact absurd trivial hlate
    · exact haction
  rw [h.blocked hframes] at hunblocked
  exact ⟨rfl, by omega, by omega, hframes, hunblocked, haction, hlate⟩

theorem Inv.deliver
    (h : Inv c s)
    {n : Signal}
    {p : Process}
    (hd : s.process.deliver n = some p) :
    Inv c { s with process := p } := by
  obtain ⟨rfl, hpending, hhandled, hnone, hunmasked, hinstalled, hlate⟩ := h.of_deliver hd
  obtain ⟨halive, -, -, hafter, haction, hcase⟩ := Process.deliver_eq_some hd
  rcases hcase with ⟨hdefault, -⟩ | ⟨act, -, hstill, -, hframes, hsleep⟩
  · rw [hinstalled] at hdefault
    cases hdefault
  have hstarted : s.written.length + p.unran = 1 := by
    rw [Process.unran_of_frames hframes rfl]
    unfold State.handled at hhandled
    omega
  refine
    { h with
      terminated := by rw [← h.terminated, halive]; simp [hstill]
      actions := by rw [haction]; exact h.actions
      installed := by rw [haction]; exact h.installed
      pending_other := ?_
      early := fun hearly => absurd hearly hlate
      once := ?_
      frames_le := ?_
      saved := ?_
      blocked := ?_
      restore := ?_
      asleep := ?_
      unmasked := fun _ => hunmasked
      returned := ?_ }
  · intro m hm
    dsimp only
    rw [hafter, Function.update_of_ne hm]
    exact h.pending_other m hm
  · intro _
    have honce := h.once hlate
    show (if 0 < c.source.left s.source then 1 else 0) + p.pending c.sig +
      (s.written.length + p.unran) = 1
    rw [hafter, Function.update_self, hpending, hstarted]
    omega
  · show p.frames.length ≤ s.written.length + p.unran
    rw [hstarted, hframes, hnone]
    exact Nat.le_refl 1
  · intro frame hframe
    dsimp only at hframe
    rw [hframes, hnone] at hframe
    rw [List.mem_singleton.mp hframe]
    exact h.blocked hnone
  · intro hempty
    dsimp only at hempty
    rw [hframes] at hempty
    cases hempty
  · intro z hz
    dsimp only at hz
    rw [hsleep, Option.map_eq_some_iff] at hz
    obtain ⟨before, hbefore, rfl⟩ := hz
    obtain ⟨hpc, hrestore, -⟩ := h.restore before hbefore
    refine ⟨hpc, hrestore, fun _ => ?_⟩
    show 0 < s.written.length + p.unran
    rw [hstarted]
    exact Nat.one_pos
  · intro hpc
    simpa [hsleep] using h.asleep hpc
  · intro hreturned
    rw [(h.terminated).mpr ⟨0, hreturned⟩] at halive
    cases halive

/-- What a step of the handler leaves alone. -/
structure HandlerStep
    (s t : State σ) :
    Prop where
  pc : t.pc = s.pc
  source : t.source = s.source
  handled : t.handled = s.handled
  terminated : t.process.terminated = s.process.terminated
  action : t.process.action = s.process.action
  pending : t.process.pending = s.process.pending
  sleep : t.process.sleep = s.process.sleep
  lower : t.process.handlerSteps < s.process.handlerSteps

/-- The handler runs its body, or it returns. -/
theorem handlerStep
    {frame : Frame}
    {rest : List Frame}
    (hframes : s.process.frames = frame :: rest) :
    HandlerStep s
      (if frame.ran then { s with process := s.process.sigreturn } else handler c s) := by
  split_ifs with hran
  · have hunran := Process.unran_sigreturn hframes hran
    have hlower := Process.handlerSteps_sigreturn hframes hran
    rw [Process.sigreturn_of_frames hframes] at hunran hlower ⊢
    exact
      { pc := rfl
        source := rfl
        handled := congrArg (s.written.length + ·) hunran
        terminated := rfl
        action := rfl
        pending := rfl
        sleep := rfl
        lower := Nat.lt_of_succ_le (Nat.le_of_eq hlower) }
  · have hunran := Process.unran_bodyDone hframes (by simpa using hran)
    have hlower := Process.handlerSteps_bodyDone hframes (by simpa using hran)
    refine
      { pc := rfl
        source := rfl
        handled := ?_
        terminated := rfl
        action := rfl
        pending := rfl
        sleep := rfl
        lower := Nat.lt_of_succ_le (Nat.le_of_eq hlower) }
    show (s.written ++ [c.message]).length + s.process.bodyDone.unran =
      s.written.length + s.process.unran
    rw [← hunran, List.length_append, List.length_singleton]
    omega

theorem Inv.handlerStep
    (h : Inv c s)
    {frame : Frame}
    {rest : List Frame}
    (hframes : s.process.frames = frame :: rest) :
    Inv c (if frame.ran then { s with process := s.process.sigreturn } else handler c s) := by
  have hlength := h.frames_le
  have hle := h.handled_le
  rw [hframes, List.length_cons] at hlength
  have hrest : rest = [] := by
    rw [← List.length_eq_zero_iff]
    omega
  subst hrest
  have hsaved : frame.saved = c.inheritedMask :=
    h.saved frame (by rw [hframes]; exact List.mem_cons_self)
  have hreturned : s.pc ≠ .returned 0 := by
    intro hpc
    rw [(h.returned hpc).2] at hframes
    cases hframes
  have hsame := PauseOnce.handlerStep (c := c) hframes
  refine
    { terminated := by rw [hsame.terminated, hsame.pc]; exact h.terminated
      actions := by rw [hsame.action]; exact h.actions
      installed := by rw [hsame.action, hsame.pc]; exact h.installed
      pending_other := by rw [hsame.pending]; exact h.pending_other
      early := by rw [hsame.pc, hsame.source, hsame.pending, hsame.handled]; exact h.early
      once := by rw [hsame.pc, hsame.source, hsame.pending, hsame.handled]; exact h.once
      messages := ?_
      frames_le := ?_
      saved := ?_
      blocked := ?_
      restore := by rw [hsame.sleep, hsame.pc, hsame.handled]; exact h.restore
      asleep := by rw [hsame.sleep, hsame.pc]; exact h.asleep
      unmasked := by rw [hsame.handled]; exact h.unmasked
      returned := fun hpc => absurd (hsame.pc ▸ hpc) hreturned }
  · split_ifs
    · exact h.messages
    · intro m hm
      rcases List.mem_append.mp hm with hold | hnew
      · exact h.messages m hold
      · exact List.mem_singleton.mp hnew
  · rw [hsame.handled]
    refine Nat.le_trans ?_ hlength
    split_ifs with hran
    · simp [Process.sigreturn, hframes]
    · simp [handler, Process.bodyDone, hframes]
  · split_ifs with hran
    · simp [Process.sigreturn, hframes]
    · simp [handler, Process.bodyDone, hframes, hsaved]
  · split_ifs with hran
    · simp [Process.sigreturn, hframes, hsaved]
    · simp [handler, Process.bodyDone, hframes]

/-- One statement of `main`. -/
theorem Inv.mainStatement
    (h : Inv c s)
    (halive : s.process.terminated = false)
    (hframes : s.process.frames = [])
    (hmain : mainStatement c s = some t) :
    Inv c t := by
  unfold PauseOnce.mainStatement at hmain
  cases hpc : s.pc with
  | sigaction =>
      rw [hpc] at hmain
      cases hmain
      obtain ⟨hsource, hpending, hhandled⟩ := h.early (by rw [hpc]; trivial)
      refine
        { h with
          terminated := ⟨fun hdead => ?_, fun ⟨_, hpc⟩ => (nomatch hpc)⟩
          actions := ?_
          installed := Or.inr (by simp [Process.sigaction])
          early := fun _ => ⟨hsource, hpending, hhandled⟩
          once := fun hlate => absurd trivial hlate
          restore := fun z hz => ?_
          asleep := fun hpc => nomatch hpc
          returned := fun hpc => nomatch hpc }
      · rw [show s.process.terminated = true from hdead] at halive
        cases halive
      · intro n act hact
        by_cases hn : n = c.sig
        · exact hn
        · simp only [Process.sigaction, Function.update_of_ne hn] at hact
          exact h.actions n act hact
      · obtain ⟨hsleeping, -⟩ := h.restore z hz
        rw [hpc] at hsleeping
        cases hsleeping
  | start =>
      rw [hpc] at hmain
      cases hmain
      obtain ⟨-, hpending, hhandled⟩ := h.early (by rw [hpc]; trivial)
      refine
        { h with
          terminated := ⟨fun hdead => ?_, fun ⟨_, hpc⟩ => (nomatch hpc)⟩
          installed := Or.inr (h.installed.resolve_left (by rw [hpc]; nofun))
          early := fun hearly => hearly.elim
          once := fun _ => ?_
          restore := fun z hz => ?_
          asleep := fun hpc => nomatch hpc
          returned := fun hpc => nomatch hpc }
      · rw [show s.process.terminated = true from hdead] at halive
        cases halive
      · show (if 0 < c.source.left c.source.started then 1 else 0) +
          s.process.pending c.sig + s.handled = 1
        rw [if_pos c.source.left_started, hpending, hhandled]
      · obtain ⟨hsleeping, -⟩ := h.restore z hz
        rw [hpc] at hsleeping
        cases hsleeping
  | pause =>
      rw [hpc] at hmain
      cases hmain
      refine
        { h with
          terminated := ⟨fun hdead => ?_, fun ⟨_, hpc⟩ => (nomatch hpc)⟩
          installed := Or.inr (h.installed.resolve_left (by rw [hpc]; nofun))
          early := fun hearly => hearly.elim
          once := fun _ => h.once (by rw [hpc]; exact id)
          restore := fun z hz => ?_
          asleep := fun _ hnone => nomatch hnone
          returned := fun hpc => nomatch hpc }
      · rw [show s.process.terminated = true from hdead] at halive
        cases halive
      · cases hz
        exact ⟨rfl, h.blocked hframes, fun hwoken => nomatch hwoken⟩
  | inPause =>
      rw [hpc, Option.map_eq_some_iff] at hmain
      obtain ⟨p, hwake, rfl⟩ := hmain
      obtain ⟨z, hz, hwoken, rfl⟩ := Process.wake_eq_some hwake
      obtain ⟨-, hrestore, hhandled⟩ := h.restore z hz
      exact
        { h with
          terminated := ⟨fun _ => ⟨0, rfl⟩, fun _ => rfl⟩
          installed := Or.inr (h.installed.resolve_left (by rw [hpc]; nofun))
          early := fun hearly => absurd rfl hearly
          once := fun _ => h.once (by rw [hpc]; exact id)
          blocked := fun _ => hrestore
          restore := fun z hz => nomatch hz
          asleep := fun hpc => nomatch hpc
          returned := fun _ => ⟨hhandled hwoken, hframes⟩ }
  | returned status =>
      rw [hpc] at hmain
      cases hmain

/-- The source cannot be started. -/
theorem Inv.startFails
    (h : Inv c s)
    (hpc : s.pc = .start) :
    Inv c (s.return 1) := by
  have hearly := h.early (by rw [hpc]; trivial)
  refine
    { h with
      terminated := ⟨fun _ => ⟨1, rfl⟩, fun _ => rfl⟩
      installed := Or.inr (h.installed.resolve_left (by rw [hpc]; nofun))
      early := fun _ => hearly
      once := fun hlate => absurd (Nat.one_ne_zero) hlate
      restore := fun z hz => ?_
      asleep := fun hpc => nomatch hpc
      returned := fun hreturned => nomatch hreturned }
  obtain ⟨hsleeping, -⟩ := h.restore z hz
  rw [hpc] at hsleeping
  cases hsleeping

/-- Every step keeps the invariant. -/
theorem Inv.step
    (h : Inv c s)
    {label : Label}
    (hstep : next c s label = some t) :
    Inv c t := by
  cases label with
  | main =>
      change mainNext c s = some t at hstep
      unfold mainNext at hstep
      split_ifs at hstep with hdead
      cases hframes : s.process.frames with
      | nil =>
          rw [hframes] at hstep
          exact h.mainStatement (by simpa using hdead) hframes hstep
      | cons frame rest =>
          rw [hframes] at hstep
          cases hstep
          exact h.handlerStep hframes
  | startFails =>
      change (if c.mayFail ∧ s.pc = .start then some (s.return 1) else none) = some t at hstep
      split_ifs at hstep with hfails
      cases hstep
      exact h.startFails hfails.2
  | source =>
      exact h.source hstep
  | deliver n =>
      simp only [next, Option.map_eq_some_iff] at hstep
      obtain ⟨p, hd, rfl⟩ := hstep
      exact h.deliver hd

theorem inv_of_reachable
    (h : (system c).Reachable s) :
    Inv c s := by
  refine h.invariant ?_ ?_
  · rintro _ rfl
    exact inv_start
  · rintro s label t hs ⟨-, hstep⟩
    exact hs.step hstep

end Invariant

/-- Once the source has been started, what its steps keep holds of it. -/
theorem source_of_reachable
    {c : Config σ}
    {Q : σ → Prop}
    (hstarted : Q c.source.started)
    (hkeep : ∀ x y raised, Q x → c.source.step x = some (y, raised) → Q y)
    {s : State σ}
    (h : (system c).Reachable s)
    (hlate : ¬ s.pc.Early) :
    Q s.source := by
  induction h with
  | init hs =>
      rw [hs] at hlate
      exact absurd trivial hlate
  | @step s t label hs hst ih =>
      obtain ⟨-, hstep⟩ := hst
      cases label with
      | main =>
          change mainNext c s = some t at hstep
          unfold mainNext at hstep
          split_ifs at hstep
          cases hframes : s.process.frames with
          | cons frame rest =>
              rw [hframes] at hstep
              cases hstep
              have hsame := handlerStep (c := c) hframes
              rw [hsame.source]
              exact ih (by rw [← hsame.pc]; exact hlate)
          | nil =>
              rw [hframes] at hstep
              unfold mainStatement at hstep
              cases hpc : s.pc with
              | sigaction =>
                  rw [hpc] at hstep
                  cases hstep
                  exact absurd trivial hlate
              | start =>
                  rw [hpc] at hstep
                  cases hstep
                  exact hstarted
              | pause =>
                  rw [hpc] at hstep
                  cases hstep
                  exact ih (by rw [hpc]; exact id)
              | inPause =>
                  rw [hpc, Option.map_eq_some_iff] at hstep
                  obtain ⟨p, -, rfl⟩ := hstep
                  exact ih (by rw [hpc]; exact id)
              | returned status =>
                  rw [hpc] at hstep
                  cases hstep
      | startFails =>
          change (if c.mayFail ∧ s.pc = .start then some (s.return 1) else none) = some t
            at hstep
          split_ifs at hstep
          cases hstep
          exact absurd Nat.one_ne_zero hlate
      | source =>
          simp only [next, sourceNext, Option.map_eq_some_iff] at hstep
          obtain ⟨⟨x, raised⟩, hx, rfl⟩ := hstep
          exact hkeep _ _ _ (ih hlate) hx
      | deliver n =>
          simp only [next, Option.map_eq_some_iff] at hstep
          obtain ⟨p, -, rfl⟩ := hstep
          exact ih hlate

/-- `pause` can still be left: the handler has woken it, or the signal is not blocked and
has not been handled yet. -/
def MayReturn
    (c : Config σ)
    (s : State σ) :
    Prop :=
  s.pc = .returned 0 ∨ s.woken = true ∨
    ((∀ status, s.pc ≠ .returned status) ∧ c.inheritedMask c.sig = false ∧ s.handled = 0)

section Returning

variable {c : Config σ} {s t : State σ} {label : Label}

theorem HandlerStep.mayReturn_iff
    (h : HandlerStep s t) :
    MayReturn c t ↔ MayReturn c s := by
  rw [MayReturn, MayReturn, State.woken, State.woken, h.pc, h.sleep, h.handled]

/-- Once the signal has been handled too early, no step changes that. -/
theorem mayReturn_of_step
    (h : Inv c s)
    (hstep : next c s label = some t)
    (hlater : MayReturn c t) :
    MayReturn c s := by
  cases label with
  | main =>
      change mainNext c s = some t at hstep
      unfold mainNext at hstep
      split_ifs at hstep with hdead
      have halive : ∀ status, s.pc ≠ .returned status := fun status hpc =>
        hdead (h.terminated.mpr ⟨status, hpc⟩)
      cases hframes : s.process.frames with
      | cons frame rest =>
          rw [hframes] at hstep
          cases hstep
          exact (handlerStep hframes).mayReturn_iff.mp hlater
      | nil =>
          rw [hframes] at hstep
          unfold mainStatement at hstep
          cases hpc : s.pc with
          | inPause =>
              rw [hpc, Option.map_eq_some_iff] at hstep
              obtain ⟨p, hwake, -⟩ := hstep
              obtain ⟨z, hz, hwoken, -⟩ := Process.wake_eq_some hwake
              exact Or.inr (Or.inl (by simp [State.woken, hz, hwoken]))
          | returned status =>
              exact absurd hpc (halive status)
          | _ =>
              rw [hpc] at hstep
              cases hstep
              rcases hlater with hpc | hwoken | ⟨-, hmask, hhandled⟩
              · cases hpc
              · first
                | exact Or.inr (Or.inl hwoken)
                | cases hwoken
              · exact Or.inr (Or.inr ⟨halive, hmask, hhandled⟩)
  | startFails =>
      change (if c.mayFail ∧ s.pc = .start then some (s.return 1) else none) = some t at hstep
      split_ifs at hstep
      cases hstep
      rcases hlater with hpc | hwoken | ⟨hpc, -⟩
      · cases hpc
      · exact Or.inr (Or.inl hwoken)
      · exact absurd rfl (hpc 1)
  | source =>
      simp only [next, sourceNext, Option.map_eq_some_iff] at hstep
      obtain ⟨⟨x, raised⟩, -, rfl⟩ := hstep
      cases raised <;> exact hlater
  | deliver n =>
      simp only [next, Option.map_eq_some_iff] at hstep
      obtain ⟨p, hd, rfl⟩ := hstep
      obtain ⟨halive, -⟩ := Process.deliver_eq_some hd
      obtain ⟨-, -, hhandled, -, hmask, -⟩ := h.of_deliver hd
      refine Or.inr (Or.inr ⟨fun status hpc => ?_, hmask, hhandled⟩)
      rw [h.terminated.mpr ⟨status, hpc⟩] at halive
      cases halive

theorem mayReturn_of_runs
    (h : Inv c s)
    (hruns : (system c).Runs s t)
    (hreturned : t.pc = .returned 0) :
    MayReturn c s := by
  induction hruns using Relation.ReflTransGen.head_induction_on with
  | refl =>
      exact Or.inl hreturned
  | head hstep _ ih =>
      obtain ⟨label, -, hnext⟩ := hstep
      exact mayReturn_of_step h hnext (ih (h.step hnext))

/-- The statements from this one to the return from `main`. -/
def Pc.left : Pc → Nat
  | sigaction => 4
  | start => 3
  | pause => 2
  | inPause => 1
  | returned _ => 0

/-- A step of the source may lead to a delivery, and that to two steps of the handler. -/
def stepsLeft
    (c : Config σ)
    (s : State σ) :
    Nat :=
  s.pc.left +
    4 * (if s.pc = .sigaction ∨ s.pc = .start then c.source.left c.source.started
      else c.source.left s.source) +
    3 * s.process.pending c.sig + s.process.handlerSteps

/-- The source takes a step. -/
theorem exists_source
    (h : Inv c s)
    (hpc : s.pc = .pause ∨ s.pc = .inPause)
    (hleft : 0 < c.source.left s.source) :
    ∃ t, next c s .source = some t ∧
      t.pc = s.pc ∧
      t.handled = s.handled ∧
      stepsLeft c t < stepsLeft c s := by
  have hready : c.source.step s.source ≠ none := by
    rw [Ne, c.source.left_of_stop]
    exact Nat.ne_of_gt hleft
  obtain ⟨⟨x, raised⟩, hx⟩ := Option.ne_none_iff_exists'.mp hready
  obtain ⟨hlower, -⟩ := c.source.left_of_step _ _ _ hx
  have hlate : ¬ s.pc.Early := by
    rcases hpc with hpc | hpc <;> exact hpc ▸ id
  have hnot : ¬ (s.pc = .sigaction ∨ s.pc = .start) := by
    rcases hpc with hpc | hpc <;> simp [hpc]
  have honce := h.once hlate
  rw [if_pos hleft] at honce
  have hpending : s.process.pending c.sig = 0 := by omega
  simp only [next, sourceNext, hx, Option.map_some]
  cases raised with
  | false =>
      refine ⟨_, rfl, rfl, rfl, ?_⟩
      simp [stepsLeft, hnot]
      omega
  | true =>
      refine ⟨_, rfl, rfl, rfl, ?_⟩
      have hsent : (s.process.send c.sig).pending c.sig = 1 := by
        simp [Process.send, hpending]
      simp [stepsLeft, hnot, hsent, hpending]
      omega

/-- The signal is delivered. -/
theorem exists_deliver
    (h : Inv c s)
    (hpc : s.pc = .pause ∨ s.pc = .inPause)
    (hmask : c.inheritedMask c.sig = false)
    (hframes : s.process.frames = [])
    (hpending : 0 < s.process.pending c.sig) :
    ∃ t, next c s (.deliver c.sig) = some t ∧
      t.pc = s.pc ∧
      t.process.sleep = s.process.sleep.map (fun z => { z with woken := true }) ∧
      stepsLeft c t < stepsLeft c s := by
  have haction : s.process.action c.sig = some c.action := by
    refine h.installed.resolve_left ?_
    rcases hpc with hpc | hpc <;> exact hpc ▸ nofun
  have halive : s.process.terminated = false := by
    rw [← Bool.not_eq_true, h.terminated]
    rintro ⟨status, hreturned⟩
    rcases hpc with hpc | hpc <;> exact nomatch hpc.symm.trans hreturned
  have hdeliverable :
      s.process.terminated = false ∧ 0 < s.process.pending c.sig ∧
        s.process.blocked c.sig = false :=
    ⟨halive, hpending, by rw [h.blocked hframes]; exact hmask⟩
  simp only [next, Process.deliver, if_pos hdeliverable, haction]
  refine ⟨_, rfl, rfl, rfl, ?_⟩
  rw [stepsLeft, stepsLeft, Process.handlerSteps_of_frames (p := s.process) rfl rfl]
  simp only [Function.update_self]
  omega

theorem exists_sleep_of_woken
    (h : s.woken = true) :
    ∃ z, s.process.sleep = some z ∧ z.woken = true := by
  unfold State.woken at h
  cases hsleep : s.process.sleep with
  | none =>
      rw [hsleep] at h
      cases h
  | some z =>
      rw [hsleep] at h
      exact ⟨z, rfl, h⟩

/-- No handler runs, and `main` takes its next statement or waits in `pause`. -/
theorem exists_mainStatement
    (h : Inv c s)
    (hfree : ∀ status, s.pc ≠ .returned status)
    (hmay : MayReturn c s)
    (hready : s.pc = .inPause → s.woken = true) :
    ∃ t, mainStatement c s = some t ∧ MayReturn c t ∧ stepsLeft c t < stepsLeft c s := by
  have hlater : s.pc ≠ .inPause → c.inheritedMask c.sig = false ∧ s.handled = 0 := by
    intro hne
    rcases hmay with hpc | hwoken | ⟨-, hmask, hhandled⟩
    · exact absurd hpc (hfree 0)
    · obtain ⟨z, hz, -⟩ := exists_sleep_of_woken hwoken
      exact absurd (h.restore z hz).1 hne
    · exact ⟨hmask, hhandled⟩
  unfold mainStatement
  cases hpc : s.pc with
  | sigaction =>
      obtain ⟨hmask, hhandled⟩ := hlater (by rw [hpc]; nofun)
      refine ⟨_, rfl, Or.inr (Or.inr ⟨nofun, hmask, hhandled⟩), ?_⟩
      simp [stepsLeft, hpc, Pc.left, Process.sigaction_pending]
  | start =>
      obtain ⟨hmask, hhandled⟩ := hlater (by rw [hpc]; nofun)
      refine ⟨_, rfl, Or.inr (Or.inr ⟨nofun, hmask, hhandled⟩), ?_⟩
      simp [stepsLeft, hpc, Pc.left]
  | pause =>
      obtain ⟨hmask, hhandled⟩ := hlater (by rw [hpc]; nofun)
      refine ⟨_, rfl, Or.inr (Or.inr ⟨nofun, hmask, hhandled⟩), ?_⟩
      simp [stepsLeft, hpc, Pc.left]
  | inPause =>
      obtain ⟨z, hz, hwoken⟩ := exists_sleep_of_woken (hready hpc)
      simp only [Process.wake, hz, if_pos hwoken, Option.map_some]
      refine ⟨_, rfl, Or.inl rfl, ?_⟩
      change 0 + 4 * c.source.left s.source + 3 * s.process.pending c.sig +
        s.process.handlerSteps < stepsLeft c s
      simp [stepsLeft, hpc, Pc.left]
  | returned status =>
      exact absurd hpc (hfree status)

/-- A state from which `main` may return is the last one, or has a successor that is nearer
to it. -/
theorem MayReturn.progress
    (hmay : MayReturn c s)
    (h : Inv c s) :
    s.pc = .returned 0 ∨
      ∃ label t, next c s label = some t ∧ MayReturn c t ∧ stepsLeft c t < stepsLeft c s := by
  by_cases hreturned : s.pc = .returned 0
  · exact Or.inl hreturned
  right
  have hfree : ∀ status, s.pc ≠ .returned status := by
    intro status hpc
    rcases hmay with hzero | hwoken | ⟨hne, -⟩
    · exact hreturned hzero
    · obtain ⟨z, hz, -⟩ := exists_sleep_of_woken hwoken
      rw [(h.restore z hz).1] at hpc
      cases hpc
    · exact hne status hpc
  have halive : s.process.terminated = false := by
    rw [← Bool.not_eq_true, h.terminated]
    rintro ⟨status, hpc⟩
    exact hfree status hpc
  cases hframes : s.process.frames with
  | cons frame rest =>
      have hsame := handlerStep (c := c) hframes
      refine ⟨.main, _, ?_, hsame.mayReturn_iff.mpr hmay, ?_⟩
      · show mainNext c s = _
        simp only [mainNext, halive, hframes]
        rfl
      · rw [stepsLeft, stepsLeft, hsame.pc, hsame.source, hsame.pending]
        exact Nat.add_lt_add_left hsame.lower _
  | nil =>
      by_cases hready : s.pc = .inPause → s.woken = true
      · obtain ⟨t, hmain, ht, hlower⟩ := exists_mainStatement h hfree hmay hready
        refine ⟨.main, t, ?_, ht, hlower⟩
        show mainNext c s = _
        simpa [mainNext, halive, hframes] using hmain
      · rw [Classical.not_imp] at hready
        obtain ⟨hpc, hasleep⟩ := hready
        have hthird : c.inheritedMask c.sig = false ∧ s.handled = 0 := by
          rcases hmay with hzero | hwoken | ⟨-, hthird⟩
          · exact absurd hzero hreturned
          · exact absurd hwoken hasleep
          · exact hthird
        have honce := h.once (by rw [hpc]; exact id)
        by_cases hleft : 0 < c.source.left s.source
        · obtain ⟨t, hnext, htpc, hhandled, hlower⟩ := exists_source h (Or.inr hpc) hleft
          refine ⟨.source, t, hnext, Or.inr (Or.inr ⟨?_, hthird.1, ?_⟩), hlower⟩
          · rw [htpc]
            exact hfree
          · rw [hhandled]
            exact hthird.2
        · rw [if_neg hleft, hthird.2] at honce
          obtain ⟨t, hnext, -, hsleep, hlower⟩ :=
            exists_deliver h (Or.inr hpc) hthird.1 hframes (by omega)
          obtain ⟨z, hz⟩ := Option.ne_none_iff_exists'.mp (h.asleep hpc)
          have hwoken : t.woken = true := by
            simp [State.woken, hsleep, hz]
          exact ⟨_, t, hnext, Or.inr (Or.inl hwoken), hlower⟩

/-- `main` can still return from `pause` if and only if the handler has woken it, or the
signal is not blocked and has not been handled yet. -/
theorem exists_returned_iff
    (h : (system c).Reachable s) :
    (∃ t, (system c).Runs s t ∧ t.pc = .returned 0) ↔ MayReturn c s := by
  constructor
  · rintro ⟨t, hruns, hreturned⟩
    exact mayReturn_of_runs (inv_of_reachable h) hruns hreturned
  · intro hmay
    have hprogress :
        ∀ s, Inv c s ∧ MayReturn c s →
          s.pc = .returned 0 ∨
            ∃ label t, (system c).step s label t ∧ (Inv c t ∧ MayReturn c t) ∧
              stepsLeft c t < stepsLeft c s := by
      rintro s ⟨hinv, hmay⟩
      rcases hmay.progress hinv with hgoal | ⟨label, t, hnext, ht, hlower⟩
      · exact Or.inl hgoal
      · exact Or.inr ⟨label, t, ⟨trivial, hnext⟩, ⟨hinv.step hnext, ht⟩, hlower⟩
    obtain ⟨t, hruns, -, hgoal⟩ :=
      TransitionSystem.exists_runs_of_measure (stepsLeft c) hprogress
        ⟨inv_of_reachable h, hmay⟩
    exact ⟨t, hruns, hgoal⟩

theorem written_of_handled
    (h : Inv c s)
    (hframes : s.process.frames = [])
    (hpos : 0 < s.handled) :
    s.written = [c.message] := by
  have hle := h.handled_le
  have hlength : s.written.length = 1 := by
    rw [State.handled, Process.unran_of_nil hframes] at hpos hle
    omega
  obtain ⟨m, hm⟩ := List.length_eq_one_iff.mp hlength
  rw [hm, h.messages m (by rw [hm]; exact List.mem_singleton_self m)]

/-- A signal that is not blocked may be handled before `pause` is called, which then does not
return. -/
theorem exists_too_early
    (hmask : c.inheritedMask c.sig = false) :
    ∃ s, (system c).Reachable s ∧
      s.pc = .pause ∧
      s.written = [c.message] ∧
      ¬ MayReturn c s := by
  have hstart : (system c).Reachable (start c) := TransitionSystem.Reachable.init rfl
  have hinstalled : (system c).Reachable _ :=
    .step (a := .main) hstart ⟨trivial, rfl⟩
  have hstarted : (system c).Reachable _ :=
    .step (a := .main) hinstalled ⟨trivial, rfl⟩
  have hprogress :
      ∀ s, (system c).Reachable s ∧ s.pc = .pause →
        (s.process.frames = [] ∧ 0 < s.handled) ∨
          ∃ label t, (system c).step s label t ∧
            ((system c).Reachable t ∧ t.pc = .pause) ∧ stepsLeft c t < stepsLeft c s := by
    rintro s ⟨hs, hpc⟩
    have hinv := inv_of_reachable hs
    have halive : s.process.terminated = false := by
      rw [← Bool.not_eq_true, hinv.terminated, hpc]
      rintro ⟨status, hreturned⟩
      cases hreturned
    have hcontinue : ∀ label t, next c s label = some t → t.pc = s.pc →
        stepsLeft c t < stepsLeft c s →
        ∃ label t, (system c).step s label t ∧
          ((system c).Reachable t ∧ t.pc = .pause) ∧ stepsLeft c t < stepsLeft c s :=
      fun label t hnext htpc hlower =>
        ⟨label, t, ⟨trivial, hnext⟩, ⟨.step hs ⟨trivial, hnext⟩, htpc.trans hpc⟩, hlower⟩
    cases hframes : s.process.frames with
    | cons frame rest =>
        right
        have hsame := handlerStep (c := c) hframes
        refine hcontinue .main _ ?_ hsame.pc ?_
        · show mainNext c s = _
          simp only [mainNext, halive, hframes]
          rfl
        · rw [stepsLeft, stepsLeft, hsame.pc, hsame.source, hsame.pending]
          exact Nat.add_lt_add_left hsame.lower _
    | nil =>
        by_cases hpos : 0 < s.handled
        · exact Or.inl ⟨rfl, hpos⟩
        right
        have honce := hinv.once (by rw [hpc]; exact id)
        by_cases hleft : 0 < c.source.left s.source
        · obtain ⟨t, hnext, htpc, -, hlower⟩ := exists_source hinv (Or.inl hpc) hleft
          exact hcontinue _ t hnext htpc hlower
        · rw [if_neg hleft] at honce
          obtain ⟨t, hnext, htpc, -, hlower⟩ :=
            exists_deliver hinv (Or.inl hpc) hmask hframes (by omega)
          exact hcontinue _ t hnext htpc hlower
  obtain ⟨s, -, ⟨hs, hpc⟩, hframes, hpos⟩ :=
    TransitionSystem.exists_runs_of_measure (stepsLeft c) hprogress ⟨hstarted, rfl⟩
  refine ⟨s, hs, hpc, written_of_handled (inv_of_reachable hs) hframes hpos, ?_⟩
  rintro (hreturned | hwoken | ⟨-, -, hnone⟩)
  · rw [hpc] at hreturned
    cases hreturned
  · obtain ⟨z, hz, -⟩ := exists_sleep_of_woken hwoken
    have hsleeping := ((inv_of_reachable hs).restore z hz).1
    rw [hpc] at hsleeping
    cases hsleeping
  · omega

/-- Behind the return from `pause` the signal has been raised and handled once. -/
theorem of_returned
    (h : (system c).Reachable s)
    (hreturned : s.pc = .returned 0) :
    s.written = [c.message] ∧
    c.source.left s.source = 0 ∧
    c.inheritedMask c.sig = false := by
  have hinv := inv_of_reachable h
  obtain ⟨hpos, hframes⟩ := hinv.returned hreturned
  have honce := hinv.once (by rw [hreturned]; exact fun hne => hne rfl)
  refine ⟨written_of_handled hinv hframes hpos, ?_, hinv.unmasked hpos⟩
  by_contra hleft
  rw [if_pos (Nat.pos_of_ne_zero hleft)] at honce
  omega

end Returning

end PauseOnce

end Foundation
end OsSeminars
