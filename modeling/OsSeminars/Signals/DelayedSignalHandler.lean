import OsSeminars.Foundation.Signals
import OsSeminars.Foundation.TransitionSystem

/-!
# 16-signals/delayed-signal-handler.c

The program blocks `SIGINT`, sleeps and unblocks it again, in an endless loop. The
handler, which prints a line, runs outside of the sleep only. A signal that arrives
during the sleep remains pending, and further ones are merged with it. `sigprocmask`
does not return from unblocking before a signal that was pending is delivered, so every
signal is answered by the end of the next round at the latest.

`SIGINT` and `SIGTERM` may be sent at any time. The log lists what has been sent and
delivered. A window lists the lengths of the log when `sigprocmask` has unblocked the
signal and when it has returned.
-/

namespace OsSeminars
namespace Signals
namespace DelayedSignalHandler

open Foundation

inductive Pc
  | sigaction
  | block
  | sleep
  | unblock
  /-- in the call of `sigprocmask` that has unblocked the signal -/
  | inUnblock
  deriving DecidableEq

structure State where
  process : Process
  pc : Pc
  /-- a signal was pending when it was unblocked and has not been delivered yet -/
  owed : Bool
  written : List String
  log : List SignalEvent
  /-- the length of the log when the signal was unblocked last -/
  opened : Nat
  windows : List (Nat × Nat)

inductive Label
  | main
  | send (sig : Signal)
  | deliver (sig : Signal)
  deriving DecidableEq

/-- `handler` is installed without further signals in `sa_mask`. -/
def handlerAction : SigAction where
  saMask := sigemptyset
  nodefer := false

/-- `sigemptyset(&mask); sigaddset(&mask, SIGINT)` -/
def mask : SigSet :=
  fun sig => decide (sig = sigint)

def start
    (inheritedMask : SigSet) :
    State where
  process := .started inheritedMask
  pc := .sigaction
  owed := false
  written := []
  log := []
  opened := 0
  windows := []

section Steps

variable (s : State)

/-- The body of `handler`. -/
def handler :
    State :=
  { s with
    process := s.process.bodyDone
    written := s.written ++ ["SIGINT caught\n"] }

/-- One statement of `main`, while no handler is running. -/
def mainStatement :
    Option State :=
  match s.pc with
  | .sigaction =>
      some { s with process := s.process.sigaction sigint handlerAction, pc := .block }
  | .block => some { s with process := s.process.blockSignals mask, pc := .sleep }
  | .sleep => some { s with pc := .unblock }
  | .unblock =>
      some { s with
        process := s.process.unblockSignals mask
        owed := decide (0 < s.process.pending sigint)
        opened := s.log.length
        pc := .inUnblock }
  | .inUnblock =>
      if s.owed then none
      else some { s with windows := s.windows ++ [(s.opened, s.log.length)], pc := .block }

/-- One step of the innermost running handler, or of `main`. -/
def mainNext :
    Option State :=
  if s.process.terminated then none
  else
    match s.process.frames with
    | frame :: _ =>
        some (if frame.ran then { s with process := s.process.sigreturn } else handler s)
    | [] => mainStatement s

def next :
    Label → Option State
  | .main => mainNext s
  | .send sig =>
      some { s with process := s.process.send sig, log := s.log ++ [.sent sig] }
  | .deliver sig =>
      (s.process.deliver sig).map fun p =>
        { s with
          process := p
          owed := if sig = sigint then false else s.owed
          log := s.log ++ [.handled sig] }

end Steps

/-- Only `SIGINT` and `SIGTERM` are sent. -/
def Allowed : Label → Prop
  | .send sig => sig = sigint ∨ sig = sigterm
  | _ => True

instance : (label : Label) → Decidable (Allowed label)
  | .send sig => inferInstanceAs (Decidable (sig = sigint ∨ sig = sigterm))
  | .main => inferInstanceAs (Decidable True)
  | .deliver _ => inferInstanceAs (Decidable True)

def system
    (inheritedMask : SigSet) :
    TransitionSystem State Label :=
  .ofProgram (fun s => s = start inheritedMask) (fun _ label => Allowed label) next

/-- The points between the two calls of `sigprocmask`. -/
def Pc.Masked : Pc → Prop
  | sleep => True
  | unblock => True
  | _ => False

/-- Every `SIGINT` sent before the first time was delivered before the second. -/
def AnsweredBetween
    (log : List SignalEvent)
    (opened closed : Nat) :
    Prop :=
  ∀ i, i < opened → log[i]? = some (.sent sigint) →
    ∃ j, i < j ∧ j < closed ∧ log[j]? = some (.handled sigint)

structure Inv
    (s : State) :
    Prop where
  ledger : Ledger s.process.pending s.log
  merged : s.process.pending sigint ≤ 1
  opened_le : s.opened ≤ s.log.length
  windows : ∀ w ∈ s.windows,
    w.1 ≤ w.2 ∧ w.2 ≤ s.log.length ∧ AnsweredBetween s.log w.1 w.2
  answered : s.pc = .inUnblock → s.owed = false →
    AnsweredBetween s.log s.opened s.log.length
  masked : s.process.terminated = false → s.pc.Masked →
    s.process.blocked sigint = true ∧ s.process.frames = []
  actions : ∀ sig act, s.process.action sig = some act →
    sig = sigint ∧ act = handlerAction
  installed : s.pc = .sigaction ∨ s.process.action sigint = some handlerAction
  messages : ∀ m ∈ s.written, m = "SIGINT caught\n"
  printed : s.process.terminated = false →
    s.written.length + s.process.unran = s.log.count (.handled sigint)

section Answers

variable {log : List SignalEvent} {opened closed : Nat}

theorem AnsweredBetween.append
    (h : AnsweredBetween log opened closed)
    (hopened : opened ≤ log.length)
    (e : SignalEvent) :
    AnsweredBetween (log ++ [e]) opened closed := by
  intro i hi hsent
  rw [List.getElem?_append_left (Nat.lt_of_lt_of_le hi hopened)] at hsent
  obtain ⟨j, hij, hj, hhandled⟩ := h i hi hsent
  obtain ⟨hlt, -⟩ := List.getElem?_eq_some_iff.mp hhandled
  exact ⟨j, hij, hj, by rw [List.getElem?_append_left hlt]; exact hhandled⟩

theorem AnsweredBetween.mono
    (h : AnsweredBetween log opened closed)
    {later : Nat}
    (hle : closed ≤ later) :
    AnsweredBetween log opened later := by
  intro i hi hsent
  obtain ⟨j, hij, hj, hhandled⟩ := h i hi hsent
  exact ⟨j, hij, Nat.lt_of_lt_of_le hj hle, hhandled⟩

/-- A delivery answers everything before it. -/
theorem answeredBetween_handled
    (hopened : opened ≤ log.length) :
    AnsweredBetween (log ++ [.handled sigint]) opened (log.length + 1) := by
  intro i hi _
  exact ⟨log.length, Nat.lt_of_lt_of_le hi hopened, by simp, by simp⟩

/-- Nothing is pending, so everything has been answered. -/
theorem answeredBetween_of_ledger
    {pending : Signal → Nat}
    (h : Ledger pending log)
    (hzero : pending sigint = 0) :
    AnsweredBetween log log.length log.length := by
  intro i _ hsent
  rcases h.answered sigint i hsent with hpos | ⟨j, hij, hhandled⟩
  · omega
  · obtain ⟨hlt, -⟩ := List.getElem?_eq_some_iff.mp hhandled
    exact ⟨j, hij, hlt, hhandled⟩

end Answers

section Invariant

variable {s t : State}

theorem inv_start
    (inheritedMask : SigSet) :
    Inv (start inheritedMask) where
  ledger := ledger_nil
  merged := Nat.zero_le 1
  opened_le := Nat.le_refl 0
  windows _ hw := nomatch hw
  answered hpc := nomatch hpc
  masked _ h := h.elim
  actions _ _ hact := nomatch hact
  installed := Or.inl rfl
  messages _ hm := nomatch hm
  printed _ := rfl

/-- The windows stay answered when the log grows. -/
theorem Inv.windows_append
    (h : Inv s)
    (e : SignalEvent) :
    ∀ w ∈ s.windows, w.1 ≤ w.2 ∧ w.2 ≤ (s.log ++ [e]).length ∧
      AnsweredBetween (s.log ++ [e]) w.1 w.2 := by
  intro w hw
  obtain ⟨hle, hend, hanswered⟩ := h.windows w hw
  refine ⟨hle, ?_, hanswered.append (Nat.le_trans hle hend) e⟩
  rw [List.length_append]
  exact Nat.le_add_right_of_le hend

theorem Inv.send
    (h : Inv s)
    (sig : Signal) :
    Inv { s with process := s.process.send sig, log := s.log ++ [.sent sig] } where
  ledger := h.ledger.send sig
  merged := by
    by_cases heq : sig = sigint
    · subst heq
      simp [Process.send, isRealTime, sigint, sigrtmin]
    · simpa [Process.send, Ne.symm heq] using h.merged
  opened_le := by
    rw [List.length_append]
    exact Nat.le_add_right_of_le h.opened_le
  windows := h.windows_append _
  answered hpc howed := by
    have hlog := (h.answered hpc howed).append h.opened_le (.sent sig)
    exact hlog.mono (by simp)
  masked := h.masked
  actions := h.actions
  installed := h.installed
  messages := h.messages
  printed halive := by
    have hcount := h.printed halive
    simpa [List.count_append] using hcount

/-- A delivery starts the handler of `SIGINT` or ends the process. -/
theorem Inv.deliver
    (h : Inv s)
    {sig : Signal}
    {p : Process}
    (hd : s.process.deliver sig = some p) :
    Inv { s with
      process := p
      owed := if sig = sigint then false else s.owed
      log := s.log ++ [.handled sig] } := by
  obtain ⟨halive, -, hunblocked, hpending, haction, hcase⟩ := Process.deliver_eq_some hd
  refine
    { ledger := h.ledger.deliver hd
      merged := ?_
      opened_le := ?_
      windows := h.windows_append _
      answered := ?_
      masked := ?_
      actions := by rw [haction]; exact h.actions
      installed := by rw [haction]; exact h.installed
      messages := h.messages
      printed := ?_ }
  · have hmerged := h.merged
    show p.pending sigint ≤ 1
    rw [hpending]
    by_cases heq : sig = sigint
    · subst heq
      simp
      omega
    · simpa [Ne.symm heq] using hmerged
  · show s.opened ≤ (s.log ++ [SignalEvent.handled sig]).length
    rw [List.length_append]
    exact Nat.le_add_right_of_le h.opened_le
  · show s.pc = .inUnblock → (if sig = sigint then false else s.owed) = false →
      AnsweredBetween (s.log ++ [SignalEvent.handled sig]) s.opened
        (s.log ++ [SignalEvent.handled sig]).length
    intro hpc howed
    rw [List.length_append]
    by_cases heq : sig = sigint
    · subst heq
      exact answeredBetween_handled h.opened_le
    · rw [if_neg heq] at howed
      exact ((h.answered hpc howed).append h.opened_le _).mono (Nat.le_add_right _ _)
  · show p.terminated = false → s.pc.Masked → p.blocked sigint = true ∧ p.frames = []
    intro hstill hmasked
    -- `SIGINT` is blocked here, and no other signal has a handler
    obtain ⟨hblocked, -⟩ := h.masked halive hmasked
    rcases hcase with ⟨-, hdead, -⟩ | ⟨act, hact, -⟩
    · rw [hdead] at hstill
      cases hstill
    · obtain ⟨rfl, -⟩ := h.actions sig act hact
      rw [hblocked] at hunblocked
      cases hunblocked
  · show p.terminated = false →
      s.written.length + p.unran =
        (s.log ++ [SignalEvent.handled sig]).count (SignalEvent.handled sigint)
    intro hstill
    have hcount := h.printed halive
    rcases hcase with ⟨-, hdead, -⟩ | ⟨act, hact, -, -, hframes, -⟩
    · rw [hdead] at hstill
      cases hstill
    · obtain ⟨rfl, -⟩ := h.actions sig act hact
      rw [Process.unran_of_frames hframes rfl, List.count_append, List.count_singleton_self,
        ← hcount, Nat.add_assoc]

/-- One step of the handler: its body prints, or it returns. -/
theorem Inv.handlerStep
    (h : Inv s)
    (halive : s.process.terminated = false)
    {frame : Frame}
    {rest : List Frame}
    (hframes : s.process.frames = frame :: rest) :
    Inv (if frame.ran then { s with process := s.process.sigreturn } else handler s) := by
  have hcount := h.printed halive
  have hunmasked : ¬ s.pc.Masked := by
    intro hmasked
    rw [(h.masked halive hmasked).2] at hframes
    cases hframes
  split_ifs with hran
  · have hunran := Process.unran_sigreturn hframes hran
    rw [Process.sigreturn_of_frames hframes] at hunran ⊢
    exact
      { h with
        masked := fun _ hmasked => absurd hmasked hunmasked
        printed := fun _ => by rw [hunran]; exact hcount }
  · have hunran := Process.unran_bodyDone hframes (by simpa using hran)
    rw [handler]
    rw [Process.bodyDone_of_frames hframes] at hunran ⊢
    refine
      { h with
        masked := fun _ hmasked => absurd hmasked hunmasked
        messages := ?_
        printed := ?_ }
    · intro m hm
      rcases List.mem_append.mp hm with hold | hnew
      · exact h.messages m hold
      · exact List.mem_singleton.mp hnew
    · intro _
      rw [List.length_append, List.length_singleton, Nat.add_assoc, Nat.add_comm 1, hunran]
      exact hcount

/-- One statement of `main`. -/
theorem Inv.mainStatement
    (h : Inv s)
    (hframes : s.process.frames = [])
    (hmain : mainStatement s = some t) :
    Inv t := by
  have hinstalled : s.pc ≠ .sigaction → s.process.action sigint = some handlerAction :=
    fun hne => h.installed.resolve_left hne
  unfold DelayedSignalHandler.mainStatement at hmain
  cases hpc : s.pc with
  | sigaction =>
      rw [hpc] at hmain
      cases hmain
      refine
        { h with
          answered := fun hin => nomatch hin
          masked := fun _ hmasked => hmasked.elim
          actions := ?_
          installed := Or.inr (by simp [Process.sigaction]) }
      intro sig act hact
      by_cases heq : sig = sigint
      · subst heq
        simp only [Process.sigaction, Function.update_self, Option.some.injEq] at hact
        exact ⟨rfl, hact.symm⟩
      · simp only [Process.sigaction, Function.update_of_ne heq] at hact
        exact h.actions sig act hact
  | block =>
      rw [hpc] at hmain
      cases hmain
      exact
        { h with
          answered := fun hin => nomatch hin
          installed := Or.inr (hinstalled (by rw [hpc]; nofun))
          masked := fun _ _ => ⟨by simp [Process.blockSignals, mask], hframes⟩ }
  | sleep =>
      rw [hpc] at hmain
      cases hmain
      exact
        { h with
          answered := fun hin => nomatch hin
          installed := Or.inr (hinstalled (by rw [hpc]; nofun))
          masked := fun halive _ => h.masked halive (by rw [hpc]; trivial) }
  | unblock =>
      rw [hpc] at hmain
      cases hmain
      refine
        { h with
          opened_le := Nat.le_refl _
          answered := ?_
          installed := Or.inr (hinstalled (by rw [hpc]; nofun))
          masked := fun _ hmasked => hmasked.elim }
      intro _ howed
      have hzero : s.process.pending sigint = 0 := by
        simpa using howed
      exact answeredBetween_of_ledger h.ledger hzero
  | inUnblock =>
      rw [hpc] at hmain
      dsimp only at hmain
      split_ifs at hmain with howed
      cases hmain
      refine
        { h with
          windows := ?_
          answered := fun hin => nomatch hin
          installed := Or.inr (hinstalled (by rw [hpc]; nofun))
          masked := fun _ hmasked => hmasked.elim }
      intro w hw
      rcases List.mem_append.mp hw with hold | hnew
      · exact h.windows w hold
      · rw [List.mem_singleton.mp hnew]
        exact ⟨h.opened_le, Nat.le_refl _, h.answered hpc (by simpa using howed)⟩

/-- Every step keeps the invariant. -/
theorem Inv.step
    (h : Inv s)
    {label : Label}
    (hstep : next s label = some t) :
    Inv t := by
  cases label with
  | main =>
      unfold next mainNext at hstep
      split_ifs at hstep with hdead
      have halive : s.process.terminated = false := by
        simpa using hdead
      cases hframes : s.process.frames with
      | nil =>
          rw [hframes] at hstep
          exact h.mainStatement hframes hstep
      | cons frame rest =>
          rw [hframes] at hstep
          cases hstep
          exact h.handlerStep halive hframes
  | send sig =>
      cases hstep
      exact h.send sig
  | deliver sig =>
      simp only [next, Option.map_eq_some_iff] at hstep
      obtain ⟨p, hd, rfl⟩ := hstep
      exact h.deliver hd

theorem inv_of_reachable
    {inheritedMask : SigSet}
    (h : (system inheritedMask).Reachable s) :
    Inv s := by
  refine h.invariant ?_ ?_
  · rintro _ rfl
    exact inv_start inheritedMask
  · rintro s label t hs ⟨-, hstep⟩
    exact hs.step hstep

end Invariant

/--
Whatever is sent at whatever moment, `SIGINT` is blocked and no handler runs from the
first `sigprocmask` of a round to the second, and everything sent before the second has
been delivered when it returns. At most one `SIGINT` is pending, none is delivered that was
not sent, and the lines written are those of the handlers that have been started and have
printed.
-/
theorem answered_in_window
    {inheritedMask : SigSet}
    {s : State}
    (h : (system inheritedMask).Reachable s) :
    (∀ w ∈ s.windows,
      w.1 ≤ w.2 ∧ w.2 ≤ s.log.length ∧ AnsweredBetween s.log w.1 w.2) ∧
    s.log.count (.handled sigint) + s.process.pending sigint ≤ s.log.count (.sent sigint) ∧
    s.process.pending sigint ≤ 1 ∧
    (s.process.terminated = false →
      (s.pc.Masked → s.process.blocked sigint = true ∧ s.process.frames = []) ∧
      ∃ lines, s.written = List.replicate lines "SIGINT caught\n" ∧
        lines + s.process.unran = s.log.count (.handled sigint)) := by
  have hinv := inv_of_reachable h
  refine ⟨hinv.windows, hinv.ledger.standard sigint rfl, hinv.merged, fun halive => ?_⟩
  exact ⟨hinv.masked halive, s.written.length,
    List.eq_replicate_of_mem hinv.messages, hinv.printed halive⟩

/-- Two signals during the sleep are merged and answered when it is over. -/
theorem answered_in_window_merged :
    ∃ s, (system sigemptyset).Reachable s ∧
      s.windows = [(2, 3)] ∧
      s.written = ["SIGINT caught\n"] ∧
      AnsweredBetween s.log 2 3 := by
  have hstart : (system sigemptyset).Reachable (start sigemptyset) :=
    TransitionSystem.Reachable.init rfl
  obtain ⟨s, hs, htest⟩ :=
    TransitionSystem.exists_reachable_of_exec
      [.main, .main, .send sigint, .send sigint, .main, .main, .deliver sigint, .main, .main,
        .main]
      (fun s : State =>
        decide (s.windows = [(2, 3)] ∧ s.written = ["SIGINT caught\n"]))
      hstart (by decide +kernel) (by decide +kernel)
  obtain ⟨hwindows, hwritten⟩ := of_decide_eq_true htest
  have hmem : ((2, 3) : Nat × Nat) ∈ s.windows := by
    rw [hwindows]
    exact List.mem_singleton_self _
  exact ⟨s, hs, hwindows, hwritten, ((answered_in_window hs).1 (2, 3) hmem).2.2⟩

section Rounds

/-- While `sigprocmask` has not returned, `SIGINT` is unblocked outside of the handlers, and
a signal that is owed is pending. -/
structure Unblocking
    (s : State) :
    Prop where
  saved : ∀ frame ∈ s.process.frames, frame.saved sigint = false
  unblocked : s.process.frames = [] → s.process.blocked sigint = false
  pending : s.owed = true → 0 < s.process.pending sigint

variable {inheritedMask : SigSet} {s t : State} {label : Label}

/-- A delivery by which the process survives starts the handler of `SIGINT`. -/
theorem Unblocking.deliver
    (h : Unblocking s)
    (hinv : Inv s)
    {sig : Signal}
    {p : Process}
    (hd : s.process.deliver sig = some p)
    (halive : p.terminated = false) :
    Unblocking { s with
      process := p
      owed := if sig = sigint then false else s.owed
      log := s.log ++ [.handled sig] } := by
  obtain ⟨-, -, hunblocked, -, -, hcase⟩ := Process.deliver_eq_some hd
  rcases hcase with ⟨-, hdead, -⟩ | ⟨act, hact, -, -, hframes, -⟩
  · rw [hdead] at halive
    cases halive
  · obtain ⟨rfl, -⟩ := hinv.actions sig act hact
    refine
      { saved := ?_
        unblocked := ?_
        pending := fun howed => nomatch howed }
    · intro frame hframe
      dsimp only at hframe
      rw [hframes] at hframe
      rcases List.mem_cons.mp hframe with rfl | hold
      · exact hunblocked
      · exact h.saved frame hold
    · intro hnone
      dsimp only at hnone
      rw [hframes] at hnone
      cases hnone

theorem Unblocking.send
    (h : Unblocking s)
    (sig : Signal) :
    Unblocking { s with process := s.process.send sig, log := s.log ++ [.sent sig] } where
  saved := h.saved
  unblocked := h.unblocked
  pending howed := by
    have hpos := h.pending howed
    by_cases heq : sig = sigint
    · subst heq
      simp [Process.send, isRealTime, sigint, sigrtmin]
    · simpa [Process.send, Ne.symm heq] using hpos

theorem Unblocking.handlerStep
    (h : Unblocking s)
    {frame : Frame}
    {rest : List Frame}
    (hframes : s.process.frames = frame :: rest) :
    Unblocking
      (if frame.ran then { s with process := s.process.sigreturn } else handler s) := by
  have hframe : frame.saved sigint = false :=
    h.saved frame (by rw [hframes]; exact List.mem_cons_self)
  have hrest : ∀ f ∈ rest, f.saved sigint = false := fun f hf =>
    h.saved f (by rw [hframes]; exact List.mem_cons_of_mem _ hf)
  split_ifs with hran
  · rw [Process.sigreturn_of_frames hframes]
    exact
      { saved := hrest
        unblocked := fun _ => hframe
        pending := h.pending }
  · rw [handler, Process.bodyDone_of_frames hframes]
    refine
      { saved := ?_
        unblocked := fun hnone => nomatch hnone
        pending := h.pending }
    intro f hf
    rcases List.mem_cons.mp hf with rfl | hold
    · exact hframe
    · exact hrest f hold

theorem unblocking_of_mainStatement
    (hframes : s.process.frames = [])
    (hmain : mainStatement s = some t)
    (hpc : t.pc = .inUnblock) :
    Unblocking t := by
  unfold mainStatement at hmain
  cases hbefore : s.pc with
  | unblock =>
      rw [hbefore] at hmain
      cases hmain
      refine
        { saved := ?_
          unblocked := fun _ => by simp [Process.unblockSignals, mask]
          pending := fun howed => of_decide_eq_true howed }
      intro frame hframe
      have hnone : frame ∈ s.process.frames := hframe
      rw [hframes] at hnone
      cases hnone
  | inUnblock =>
      rw [hbefore] at hmain
      dsimp only at hmain
      split_ifs at hmain
      cases hmain
      cases hpc
  | _ =>
      rw [hbefore] at hmain
      cases hmain
      cases hpc

theorem unblocking_of_reachable
    (h : (system inheritedMask).Reachable s)
    (halive : s.process.terminated = false)
    (hpc : s.pc = .inUnblock) :
    Unblocking s := by
  induction h with
  | init hs =>
      rw [hs] at hpc
      cases hpc
  | @step s t label hs hst ih =>
      obtain ⟨-, hstep⟩ := hst
      have hinv := inv_of_reachable hs
      cases label with
      | main =>
          unfold next mainNext at hstep
          split_ifs at hstep with hdead
          cases hframes : s.process.frames with
          | nil =>
              rw [hframes] at hstep
              exact unblocking_of_mainStatement hframes hstep hpc
          | cons frame rest =>
              rw [hframes] at hstep
              cases hstep
              have hbefore : s.pc = .inUnblock := by
                split_ifs at hpc <;> exact hpc
              exact (ih (by simpa using hdead) hbefore).handlerStep hframes
      | send sig =>
          cases hstep
          exact (ih halive hpc).send sig
      | deliver sig =>
          simp only [next, Option.map_eq_some_iff] at hstep
          obtain ⟨p, hd, rfl⟩ := hstep
          obtain ⟨hbefore, -⟩ := Process.deliver_eq_some hd
          exact (ih hbefore hpc).deliver hinv hd halive

/-- The statements from this one to the end of the round. -/
def Pc.left : Pc → Nat
  | sigaction => 5
  | block => 4
  | sleep => 3
  | unblock => 2
  | inUnblock => 1

/-- A delivery that is owed starts a handler, which takes two steps. -/
def stepsLeft
    (s : State) :
    Nat :=
  4 * s.pc.left + (if s.owed then 3 else 0) + s.process.handlerSteps

/-- The handler takes one step, after which one step less is left. -/
theorem handlerStep_lowers
    {frame : Frame}
    {rest : List Frame}
    (hframes : s.process.frames = frame :: rest)
    (ht : t = if frame.ran then { s with process := s.process.sigreturn } else handler s) :
    t.process.terminated = s.process.terminated ∧
    t.log = s.log ∧
    t.windows = s.windows ∧
    stepsLeft t < stepsLeft s := by
  subst ht
  split_ifs with hran
  · have hlower := Process.handlerSteps_sigreturn hframes hran
    rw [Process.sigreturn_of_frames hframes] at hlower ⊢
    refine ⟨rfl, rfl, rfl, ?_⟩
    rw [stepsLeft, stepsLeft, ← hlower]
    exact Nat.lt_succ_self _
  · have hlower := Process.handlerSteps_bodyDone hframes (by simpa using hran)
    refine ⟨rfl, rfl, rfl, ?_⟩
    rw [stepsLeft, stepsLeft, ← hlower]
    exact Nat.lt_succ_self _

/-- `main` is held up in the second `sigprocmask` only. -/
theorem mainStatement_lowers
    (hready : ¬ (s.pc = .inUnblock ∧ s.owed = true)) :
    ∃ t, mainStatement s = some t ∧
      t.process.terminated = s.process.terminated ∧
      t.log = s.log ∧
      ((t.windows = s.windows ∧ stepsLeft t < stepsLeft s) ∨
        t.windows.length = s.windows.length + 1) := by
  unfold mainStatement
  cases hpc : s.pc with
  | sigaction =>
      refine ⟨_, rfl, rfl, rfl, Or.inl ⟨rfl, ?_⟩⟩
      simp [stepsLeft, hpc, Pc.left]
  | block =>
      refine ⟨_, rfl, rfl, rfl, Or.inl ⟨rfl, ?_⟩⟩
      simp [stepsLeft, hpc, Pc.left]
  | sleep =>
      refine ⟨_, rfl, rfl, rfl, Or.inl ⟨rfl, ?_⟩⟩
      simp [stepsLeft, hpc, Pc.left]
  | unblock =>
      refine ⟨_, rfl, rfl, rfl, Or.inl ⟨rfl, ?_⟩⟩
      simp only [stepsLeft, hpc, Pc.left, Process.handlerSteps_unblockSignals]
      split_ifs <;> omega
  | inUnblock =>
      have howed : s.owed = false := by
        simpa using fun howed => hready ⟨hpc, howed⟩
      simp [howed]

/-- `SIGINT` is owed and can be delivered. -/
theorem deliver_lowers
    (h : (system inheritedMask).Reachable s)
    (halive : s.process.terminated = false)
    (hframes : s.process.frames = [])
    (hpc : s.pc = .inUnblock)
    (howed : s.owed = true) :
    ∃ t, next s (.deliver sigint) = some t ∧
      t.process.terminated = false ∧
      t.log = s.log ++ [.handled sigint] ∧
      t.windows = s.windows ∧
      stepsLeft t < stepsLeft s := by
  have hready := unblocking_of_reachable h halive hpc
  have haction : s.process.action sigint = some handlerAction :=
    (inv_of_reachable h).installed.resolve_left (by rw [hpc]; nofun)
  have hdeliverable :
      s.process.terminated = false ∧ 0 < s.process.pending sigint ∧
        s.process.blocked sigint = false :=
    ⟨halive, hready.pending howed, hready.unblocked hframes⟩
  simp only [next, Process.deliver, if_pos hdeliverable, haction]
  refine ⟨_, rfl, halive, rfl, rfl, ?_⟩
  rw [stepsLeft, stepsLeft, howed, Process.handlerSteps_of_frames (p := s.process) rfl rfl]
  simp only [if_true, Bool.false_eq_true, if_false]
  omega

/-- The log has been extended by deliveries of `SIGINT` only. -/
def OnlyHandled
    (before after : List SignalEvent) :
    Prop :=
  ∃ handled, after = before ++ List.replicate handled (.handled sigint)

/-- The states of a round that has not been finished, and those right after it, if nothing
is sent. -/
structure InRound
    (inheritedMask : SigSet)
    (log : List SignalEvent)
    (rounds : Nat)
    (s : State) :
    Prop where
  reachable : (system inheritedMask).Reachable s
  alive : s.process.terminated = false
  quiet : OnlyHandled log s.log
  rounds_le : rounds ≤ s.windows.length
  le_succ : s.windows.length ≤ rounds + 1

theorem InRound.progress
    {log : List SignalEvent}
    {rounds : Nat}
    (h : InRound inheritedMask log rounds s)
    (hopen : s.windows.length = rounds) :
    ∃ label t, (system inheritedMask).step s label t ∧
      InRound inheritedMask log rounds t ∧
      (t.windows.length = rounds → stepsLeft t < stepsLeft s) := by
  cases hframes : s.process.frames with
  | cons frame rest =>
      obtain ⟨halive, hlog, hwindows, hlower⟩ := handlerStep_lowers hframes rfl
      have hstep : (system inheritedMask).step s .main _ :=
        ⟨trivial, by simp only [next, mainNext, h.alive, hframes]; rfl⟩
      refine ⟨.main, _, hstep, ?_, fun _ => hlower⟩
      exact
        { reachable := .step h.reachable hstep
          alive := by rw [halive]; exact h.alive
          quiet := by rw [hlog]; exact h.quiet
          rounds_le := by rw [hwindows]; exact h.rounds_le
          le_succ := by rw [hwindows]; exact h.le_succ }
  | nil =>
      by_cases hready : s.pc = .inUnblock ∧ s.owed = true
      · obtain ⟨t, hnext, halive, hlog, hwindows, hlower⟩ :=
          deliver_lowers h.reachable h.alive hframes hready.1 hready.2
        have hstep : (system inheritedMask).step s (.deliver sigint) t := ⟨trivial, hnext⟩
        refine ⟨_, t, hstep, ?_, fun _ => hlower⟩
        refine
          { reachable := .step h.reachable hstep
            alive := halive
            quiet := ?_
            rounds_le := by rw [hwindows]; exact h.rounds_le
            le_succ := by rw [hwindows]; exact h.le_succ }
        obtain ⟨handled, hquiet⟩ := h.quiet
        refine ⟨handled + 1, ?_⟩
        rw [hlog, hquiet, List.append_assoc, List.replicate_succ']
      · obtain ⟨t, hmain, halive, hlog, hcase⟩ := mainStatement_lowers hready
        have hstep : (system inheritedMask).step s .main t :=
          ⟨trivial, by simpa [next, mainNext, h.alive, hframes] using hmain⟩
        refine ⟨.main, t, hstep, ?_, ?_⟩
        · refine
            { reachable := .step h.reachable hstep
              alive := by rw [halive]; exact h.alive
              quiet := by rw [hlog]; exact h.quiet
              rounds_le := ?_
              le_succ := ?_ }
          · rcases hcase with ⟨hwindows, -⟩ | hwindows
            · rw [hwindows]
              exact h.rounds_le
            · omega
          · rcases hcase with ⟨hwindows, -⟩ | hwindows
            · rw [hwindows]
              exact h.le_succ
            · omega
        · intro hsame
          rcases hcase with ⟨-, hlower⟩ | hwindows
          · exact hlower
          · omega

end Rounds

end DelayedSignalHandler
end Signals
end OsSeminars
