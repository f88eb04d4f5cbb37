import OsSeminars.Threads.CondVarFilling

/-!
# 15-threads/cond-var-example.c: the wakeup

No wakeup is lost, whatever `full` starts with. The reader joins the wait set
in the critical section in which it saw `full ≠ 1`, so the writer has not set
`full` yet and its signal is still to come. So each thread can move unless it
waits for the other one, and they never wait for each other.
-/

namespace OsSeminars
namespace Threads
namespace CondVarExample

open Foundation

section Wakeup

/-- The program points of both threads. -/
def point
    (reader : ReaderPc)
    (writer : WriterPc) :
    Thread → ReaderPc ⊕ WriterPc
  | .reader => .inl reader
  | .writer => .inr writer

/-- Between locking and unlocking, outside `pthread_cond_wait`. -/
def InCriticalSection : ReaderPc ⊕ WriterPc → Prop
  | .inl .testFull => True
  | .inl .condWait => True
  | .inl .announce => True
  | .inl .unlock => True
  | .inr (.loop _) => True
  | .inr (.write _ _) => True
  | .inr (.sleep _) => True
  | .inr .setFull => True
  | .inr .signal => True
  | .inr .unlock => True
  | _ => False

/-- The writer has called `pthread_cond_signal`. -/
def HasSignalled : WriterPc → Prop
  | .unlock => True
  | .returned => True
  | _ => False

structure WakeupInv (s : State) : Prop where
  guards : s.monitor.Guards InCriticalSection (point s.reader s.writer)
  waiting_reader : s.monitor.waiting .reader = true → s.reader = .waiting
  waiting_writer : s.monitor.waiting .writer = false
  full_unset : s.reader = .condWait → s.full ≠ 1
  full_set : HasSetFull s.writer → s.full = 1
  signalled : HasSignalled s.writer → s.monitor.waiting .reader = false

variable {c : Config} {s t : State} {m : Monitor Thread}

theorem update_reader
    (reader pc : ReaderPc)
    (writer : WriterPc) :
    Function.update (point reader writer) .reader (.inl pc) =
      point pc writer := by
  funext u
  cases u <;> rfl

theorem update_writer
    (reader : ReaderPc)
    (writer pc : WriterPc) :
    Function.update (point reader writer) .writer (.inr pc) =
      point reader pc := by
  funext u
  cases u <;> rfl

/-- The mutex when the reader moves on its side of the critical section. -/
theorem guards_reader
    {reader pc : ReaderPc}
    {writer : WriterPc}
    (h : m.Guards InCriticalSection (point reader writer))
    (hpc : InCriticalSection (.inl pc) ↔ InCriticalSection (.inl reader)) :
    m.Guards InCriticalSection (point pc writer) := by
  rw [← update_reader reader pc writer]
  exact h.move hpc

/-- The mutex when the writer moves on its side of the critical section. -/
theorem guards_writer
    {reader : ReaderPc}
    {writer pc : WriterPc}
    (h : m.Guards InCriticalSection (point reader writer))
    (hpc : InCriticalSection (.inr pc) ↔ InCriticalSection (.inr writer)) :
    m.Guards InCriticalSection (point reader pc) := by
  rw [← update_writer reader writer pc]
  exact h.move hpc

theorem not_both_critical
    (hinv : WakeupInv s)
    (hreader : InCriticalSection (.inl s.reader)) :
    ¬ InCriticalSection (.inr s.writer) := by
  intro hwriter
  have heq : Thread.reader = Thread.writer :=
    hinv.guards.unique hreader hwriter
  cases heq

theorem wakeupInv_start
    (c : Config) :
    WakeupInv (start c) where
  guards u := by
    cases u <;> simp [start, point, InCriticalSection, Monitor.initial]
  waiting_reader h := by cases h
  waiting_writer := rfl
  full_unset h := by cases h
  full_set h := h.elim
  signalled h := h.elim

/-- A step of the reader that leaves the wait set alone. -/
theorem wakeupInv_reader
    {pc : ReaderPc}
    (hinv : WakeupInv s)
    (hguards : m.Guards InCriticalSection (point pc s.writer))
    (hwaiting : m.waiting = s.monitor.waiting)
    (hawake : s.monitor.waiting .reader = false)
    (hunset : pc = .condWait → s.full ≠ 1) :
    WakeupInv { s with monitor := m, reader := pc } where
  guards := hguards
  waiting_reader h := by
    dsimp only at h
    rw [hwaiting, hawake] at h
    cases h
  waiting_writer := by
    dsimp only
    rw [hwaiting]
    exact hinv.waiting_writer
  full_unset := hunset
  full_set := hinv.full_set
  signalled _ := by
    dsimp only
    rw [hwaiting, hawake]

theorem awake_of_ne_waiting
    (hinv : WakeupInv s)
    (h : s.reader ≠ .waiting) :
    s.monitor.waiting .reader = false := by
  by_contra hwait
  exact h (hinv.waiting_reader (by simpa using hwait))

/-- The reader joins the wait set while the writer has not set `full`. -/
theorem wakeupInv_condWait
    (hinv : WakeupInv s)
    (hpc : s.reader = .condWait)
    (hm : s.monitor.wait .reader = some m) :
    WakeupInv { s with monitor := m, reader := .waiting } := by
  obtain ⟨hheld, rfl⟩ := Monitor.wait_eq_some_iff.mp hm
  have hunset := hinv.full_unset hpc
  exact
    { guards := by
        rw [← update_reader s.reader .waiting s.writer]
        exact hinv.guards.leave hheld rfl not_false
      waiting_reader := fun _ => rfl
      waiting_writer := by simpa using hinv.waiting_writer
      full_unset := fun h => by cases h
      full_set := hinv.full_set
      signalled := fun h => by
        refine absurd (hinv.full_set ?_) hunset
        cases hw : s.writer <;> rw [hw] at h <;> trivial }

theorem wakeupInv_readerNext
    (hinv : WakeupInv s)
    (h : readerNext s = some t) :
    WakeupInv t := by
  unfold readerNext at h
  cases hpc : s.reader with
  | notCreated =>
      rw [hpc] at h
      cases h
  | lock =>
      rw [hpc] at h
      obtain ⟨m, hm, rfl⟩ := Option.map_eq_some_iff.mp h
      obtain ⟨hfree, rfl⟩ := Monitor.lock_eq_some_iff.mp hm
      refine wakeupInv_reader hinv ?_ rfl
        (awake_of_ne_waiting hinv (by simp [hpc])) (fun h => by cases h)
      rw [← update_reader s.reader .testFull s.writer]
      exact hinv.guards.enter hfree rfl trivial
  | testFull =>
      rw [hpc] at h
      cases h
      have hawake := awake_of_ne_waiting hinv (by simp [hpc])
      by_cases hfull : s.full = 1
      · rw [if_neg (not_not.mpr hfull)]
        exact wakeupInv_reader hinv
          (guards_reader hinv.guards (by rw [hpc]; exact Iff.rfl)) rfl hawake
          (fun h => by cases h)
      · rw [if_pos hfull]
        exact wakeupInv_reader hinv
          (guards_reader hinv.guards (by rw [hpc]; exact Iff.rfl)) rfl hawake
          (fun _ => hfull)
  | condWait =>
      rw [hpc] at h
      obtain ⟨m, hm, rfl⟩ := Option.map_eq_some_iff.mp h
      exact wakeupInv_condWait hinv hpc hm
  | waiting =>
      rw [hpc] at h
      dsimp only at h
      split_ifs at h with hwait
      obtain ⟨m, hm, rfl⟩ := Option.map_eq_some_iff.mp h
      obtain ⟨hfree, rfl⟩ := Monitor.lock_eq_some_iff.mp hm
      refine wakeupInv_reader hinv ?_ rfl (by simpa using hwait)
        (fun h => by cases h)
      rw [← update_reader s.reader .testFull s.writer]
      exact hinv.guards.enter hfree rfl trivial
  | announce =>
      rw [hpc] at h
      cases h
      exact wakeupInv_reader hinv
        (guards_reader hinv.guards (by rw [hpc]; exact Iff.rfl)) rfl
        (awake_of_ne_waiting hinv (by simp [hpc])) (fun h => by cases h)
  | unlock =>
      rw [hpc] at h
      obtain ⟨m, hm, rfl⟩ := Option.map_eq_some_iff.mp h
      obtain ⟨hheld, rfl⟩ := Monitor.unlock_eq_some_iff.mp hm
      refine wakeupInv_reader hinv ?_ rfl
        (awake_of_ne_waiting hinv (by simp [hpc])) (fun h => by cases h)
      rw [← update_reader s.reader .returned s.writer]
      exact hinv.guards.leave hheld rfl not_false
  | returned =>
      rw [hpc] at h
      cases h

/-- A step of the writer. -/
theorem wakeupInv_writer
    {srv : Server}
    {full : UInt8}
    {pc : WriterPc}
    (hinv : WakeupInv s)
    (hguards : m.Guards InCriticalSection (point s.reader pc))
    (hwaiting : ∀ u, m.waiting u = true → s.monitor.waiting u = true)
    (hunset : s.reader = .condWait → full ≠ 1)
    (hset : HasSetFull pc → full = 1)
    (hsignalled : HasSignalled pc → m.waiting .reader = false) :
    WakeupInv
      { s with srv := srv, full := full, monitor := m, writer := pc } where
  guards := hguards
  waiting_reader h := hinv.waiting_reader (hwaiting _ h)
  waiting_writer := by
    by_contra hwait
    have hbefore := hwaiting .writer (by simpa using hwait)
    rw [hinv.waiting_writer] at hbefore
    cases hbefore
  full_unset := hunset
  full_set := hset
  signalled := hsignalled

/-- A step of the writer inside the critical section before it sets `full`. -/
theorem wakeupInv_filling
    {srv : Server}
    {pc : WriterPc}
    (hinv : WakeupInv s)
    (hold : InCriticalSection (.inr s.writer))
    (hnew : InCriticalSection (.inr pc))
    (hset : ¬ HasSetFull pc)
    (hsignalled : ¬ HasSignalled pc) :
    WakeupInv { s with srv := srv, writer := pc } :=
  wakeupInv_writer hinv
    (guards_writer hinv.guards ⟨fun _ => hold, fun _ => hnew⟩)
    (fun _ => id) hinv.full_unset (fun h => absurd h hset)
    (fun h => absurd h hsignalled)

/-- Nobody but the reader ever waits, so a signal leaves nobody waiting. -/
theorem reader_awake_after_signal
    {woken : Option Thread}
    (hinv : WakeupInv s)
    (hm : s.monitor.signal woken = some m) :
    m.waiting .reader = false := by
  cases woken with
  | none =>
      exact Monitor.signal_none hm .reader
  | some u =>
      cases u with
      | reader =>
          by_contra hwait
          have hother := (Monitor.signal_eq_some hm).2 .reader (by simpa using hwait)
          exact hother.2 rfl
      | writer =>
          have hwriter := (Monitor.wake_eq_some_iff.mp hm).1
          rw [hinv.waiting_writer] at hwriter
          cases hwriter

theorem wakeupInv_writerNext
    {woken : Option Thread}
    (hinv : WakeupInv s)
    (h : writerNext c s woken = some t) :
    WakeupInv t := by
  unfold writerNext at h
  cases hpc : s.writer with
  | notCreated =>
      rw [hpc] at h
      cases h
  | lock =>
      rw [hpc] at h
      obtain ⟨m, hm, rfl⟩ := Option.map_eq_some_iff.mp h
      obtain ⟨hfree, rfl⟩ := Monitor.lock_eq_some_iff.mp hm
      refine wakeupInv_writer hinv ?_ (fun _ => id) hinv.full_unset (fun h => h.elim)
        (fun h => h.elim)
      rw [← update_writer s.reader s.writer (.loop 0)]
      exact hinv.guards.enter hfree rfl trivial
  | loop i =>
      rw [hpc] at h
      cases h
      by_cases hi : i < c.msgLen
      · rw [if_pos hi]
        exact wakeupInv_filling hinv (by rw [hpc]; trivial) trivial id id
      · rw [if_neg hi]
        exact wakeupInv_filling hinv (by rw [hpc]; trivial) trivial id id
  | write i w =>
      rw [hpc] at h
      cases h
      cases w <;>
        exact wakeupInv_filling hinv (by rw [hpc]; trivial) trivial id id
  | sleep i =>
      rw [hpc] at h
      cases h
      exact wakeupInv_filling hinv (by rw [hpc]; trivial) trivial id id
  | setFull =>
      rw [hpc] at h
      cases h
      refine wakeupInv_writer hinv
        (guards_writer hinv.guards (by rw [hpc]; exact Iff.rfl)) (fun _ => id) ?_
        (fun _ => rfl) (fun h => h.elim)
      -- the mutex keeps the reader from being about to wait
      intro hreader
      have hnot := not_both_critical hinv (by rw [hreader]; trivial)
      rw [hpc] at hnot
      exact absurd trivial hnot
  | signal =>
      rw [hpc] at h
      obtain ⟨m, hm, rfl⟩ := Option.map_eq_some_iff.mp h
      obtain ⟨hholder, hfewer⟩ := Monitor.signal_eq_some hm
      have hfull := hinv.full_set (by rw [hpc]; trivial)
      refine wakeupInv_writer hinv ?_ (fun u h => (hfewer u h).1)
        hinv.full_unset (fun _ => hfull) (fun _ => ?_)
      · intro u
        rw [hholder]
        exact guards_writer hinv.guards (by rw [hpc]; exact Iff.rfl) u
      · exact reader_awake_after_signal hinv hm
  | unlock =>
      rw [hpc] at h
      obtain ⟨m, hm, rfl⟩ := Option.map_eq_some_iff.mp h
      obtain ⟨hheld, rfl⟩ := Monitor.unlock_eq_some_iff.mp hm
      have hfull := hinv.full_set (by rw [hpc]; trivial)
      have hsignalled := hinv.signalled (by rw [hpc]; trivial)
      refine wakeupInv_writer hinv ?_ (fun _ => id) hinv.full_unset (fun _ => hfull)
        (fun _ => hsignalled)
      rw [← update_writer s.reader s.writer .returned]
      exact hinv.guards.leave hheld rfl not_false
  | returned =>
      rw [hpc] at h
      cases h

theorem wakeupInv_mainNext
    (hinv : WakeupInv s)
    (hknows : MainKnows s)
    (h : mainNext s = some t) :
    WakeupInv t := by
  unfold mainNext at h
  unfold MainKnows at hknows
  cases hpc : s.main with
  | createReader =>
      rw [hpc] at h hknows
      cases h
      have hstep : WakeupInv { s with reader := .lock } :=
        wakeupInv_reader hinv
          (guards_reader hinv.guards (by rw [hknows.1]; exact Iff.rfl)) rfl
          (awake_of_ne_waiting hinv (by simp [hknows.1])) (fun h => by cases h)
      exact { hstep with }
  | createWriter =>
      rw [hpc] at h hknows
      cases h
      have hstep : WakeupInv { s with writer := .lock } :=
        wakeupInv_writer hinv
          (guards_writer hinv.guards (by rw [hknows.2]; exact Iff.rfl))
          (fun _ => id) hinv.full_unset (fun h => h.elim) (fun h => h.elim)
      exact { hstep with }
  | joinReader =>
      rw [hpc] at h
      dsimp only at h
      split_ifs at h
      cases h
      exact { hinv with }
  | joinWriter =>
      rw [hpc] at h
      dsimp only at h
      split_ifs at h
      cases h
      exact { hinv with }
  | finished =>
      rw [hpc] at h
      cases h

/-- A spurious wakeup only takes a thread out of the wait set. -/
theorem wakeupInv_wake
    {u : Thread}
    (hinv : WakeupInv s)
    (hm : s.monitor.wake u = some m) :
    WakeupInv { s with monitor := m } := by
  obtain ⟨hwait, rfl⟩ := Monitor.wake_eq_some_iff.mp hm
  cases u with
  | reader =>
      exact
        { guards := hinv.guards
          waiting_reader := fun h => by simp at h
          waiting_writer := by simpa using hinv.waiting_writer
          full_unset := hinv.full_unset
          full_set := hinv.full_set
          signalled := fun _ => by simp }
  | writer =>
      rw [hinv.waiting_writer] at hwait
      cases hwait

theorem wakeupInv_of_reachable
    (h : (system c).Reachable s) :
    WakeupInv s ∧ MainKnows s := by
  refine h.invariant (I := fun s => WakeupInv s ∧ MainKnows s) ?_ ?_
  · rintro _ rfl
    exact ⟨wakeupInv_start c, rfl, rfl⟩
  · rintro s a t ⟨hinv, hknows⟩ ⟨-, hnext⟩
    refine ⟨?_, mainKnows_step hknows hnext⟩
    cases a with
    | main => exact wakeupInv_mainNext hinv hknows hnext
    | reader => exact wakeupInv_readerNext hinv hnext
    | writer woken => exact wakeupInv_writerNext hinv hnext
    | spuriousWakeup u =>
        obtain ⟨m, hm, rfl⟩ := Option.map_eq_some_iff.mp hnext
        exact wakeupInv_wake hinv hm

theorem enabled_iff
    {a : Label} :
    (system c).Enabled s a ↔ (next c s a).isSome = true := by
  simp [system, TransitionSystem.enabled_ofProgram_iff]

theorem holder_writer
    (hheld : m.holder ≠ none)
    (hother : m.holder ≠ some .reader) :
    m.holder = some .writer := by
  cases hm : m.holder with
  | none => exact absurd hm hheld
  | some u =>
      cases u with
      | reader => exact absurd hm hother
      | writer => rfl

theorem holder_reader
    (hheld : m.holder ≠ none)
    (hother : m.holder ≠ some .writer) :
    m.holder = some .reader := by
  cases hm : m.holder with
  | none => exact absurd hm hheld
  | some u =>
      cases u with
      | reader => rfl
      | writer => exact absurd hm hother

/-- The reader can move unless it is absent, over, locked out or in the wait set. -/
theorem reader_enabled_or
    (hinv : WakeupInv s) :
    (system c).Enabled s .reader ∨
    s.reader = .notCreated ∨
    s.reader = .returned ∨
    s.monitor.holder = some .writer ∨
    s.monitor.waiting .reader = true := by
  have hguard := hinv.guards .reader
  simp only [enabled_iff, next, readerNext]
  cases hpc : s.reader with
  | notCreated => simp
  | returned => simp
  | testFull => simp
  | announce => simp
  | lock =>
      by_cases hfree : s.monitor.holder = none
      · simp [Monitor.lock, hfree]
      · have hother : s.monitor.holder ≠ some .reader := by
          simpa [point, hpc, InCriticalSection] using hguard
        exact Or.inr (Or.inr (Or.inr (Or.inl (holder_writer hfree hother))))
  | waiting =>
      by_cases hwait : s.monitor.waiting .reader = true
      · simp [hwait]
      · by_cases hfree : s.monitor.holder = none
        · simp [hwait, Monitor.lock, hfree]
        · have hother : s.monitor.holder ≠ some .reader := by
            simpa [point, hpc, InCriticalSection] using hguard
          exact Or.inr (Or.inr (Or.inr (Or.inl (holder_writer hfree hother))))
  | condWait =>
      have hheld : s.monitor.holder = some .reader := by
        simpa [point, hpc, InCriticalSection] using hguard
      simp [Monitor.wait, hheld]
  | unlock =>
      have hheld : s.monitor.holder = some .reader := by
        simpa [point, hpc, InCriticalSection] using hguard
      simp [Monitor.unlock, hheld]

/-- The writer can move unless it is absent, over or locked out. -/
theorem writer_enabled_or
    (hinv : WakeupInv s) :
    (∃ woken, (system c).Enabled s (.writer woken)) ∨
    s.writer = .notCreated ∨
    s.writer = .returned ∨
    s.monitor.holder = some .reader := by
  have hguard := hinv.guards .writer
  simp only [enabled_iff, next, writerNext]
  cases hpc : s.writer with
  | notCreated => simp
  | returned => simp
  | loop i => simp
  | write i w => simp
  | sleep i => simp
  | setFull => simp
  | lock =>
      by_cases hfree : s.monitor.holder = none
      · simp [Monitor.lock, hfree]
      · have hother : s.monitor.holder ≠ some .writer := by
          simpa [point, hpc, InCriticalSection] using hguard
        exact Or.inr (Or.inr (Or.inr (holder_reader hfree hother)))
  | signal =>
      obtain ⟨woken, hwoken⟩ := s.monitor.exists_signal
      exact Or.inl ⟨woken, by simpa using hwoken⟩
  | unlock =>
      have hheld : s.monitor.holder = some .writer := by
        simpa [point, hpc, InCriticalSection] using hguard
      simp [Monitor.unlock, hheld]

/-- Once both threads are created, `main` only joins them. -/
theorem main_enabled_or
    (hknows : MainKnows s) :
    (system c).Enabled s .main ∨
    (s.reader ≠ .notCreated ∧ s.writer ≠ .notCreated) := by
  unfold MainKnows at hknows
  simp only [enabled_iff, next, mainNext]
  cases hpc : s.main <;> rw [hpc] at hknows
  · exact Or.inl rfl
  · exact Or.inl rfl
  · exact Or.inr hknows
  · exact Or.inr hknows
  · exact Or.inr hknows

/-- Every other step than a spurious wakeup. -/
def IsProgramStep : Label → Prop
  | .spuriousWakeup _ => False
  | _ => True

/--
No wakeup is lost: as long as a thread has not returned, some step other than a
spurious wakeup is possible, and once the writer has signalled, the reader is
not in the wait set.
-/
theorem no_lost_wakeup
    (c : Config)
    {s : State}
    (h : (system c).Reachable s) :
    (¬ (s.reader = .returned ∧ s.writer = .returned) →
      ∃ a, IsProgramStep a ∧ (system c).Enabled s a) ∧
    (HasSignalled s.writer → s.monitor.waiting .reader = false) := by
  obtain ⟨hinv, hknows⟩ := wakeupInv_of_reachable h
  refine ⟨fun hrun => ?_, hinv.signalled⟩
  rcases main_enabled_or hknows with hmain | ⟨hreader, hwriter⟩
  · exact ⟨.main, trivial, hmain⟩
  rcases writer_enabled_or hinv with ⟨woken, h⟩ | hnone | hover | hheld
  · exact ⟨.writer woken, trivial, h⟩
  · exact absurd hnone hwriter
  · -- the writer is over: it has signalled and does not hold the mutex
    have hawake := hinv.signalled (by rw [hover]; trivial)
    have hguard := hinv.guards .writer
    rcases reader_enabled_or hinv with h | hnone | hover' | hheld | hwait
    · exact ⟨.reader, trivial, h⟩
    · exact absurd hnone hreader
    · exact absurd ⟨hover', hover⟩ hrun
    · simp [point, hover, InCriticalSection, hheld] at hguard
    · rw [hawake] at hwait
      cases hwait
  · -- the writer is locked out: the reader is in its critical section
    have hin : InCriticalSection (.inl s.reader) :=
      (hinv.guards .reader).mpr hheld
    rcases reader_enabled_or hinv with h | hnone | hover | hheld' | hwait
    · exact ⟨.reader, trivial, h⟩
    · exact absurd hnone hreader
    · rw [hover] at hin
      exact hin.elim
    · rw [hheld] at hheld'
      cases hheld'
    · rw [hinv.waiting_reader hwait] at hin
      exact hin.elim

/-- The message length of the source, with 0 in the variable `full`. -/
def fullZero : Config :=
  { fullByChance with initialFull := 0 }

/-- The reader waits before the writer takes the mutex. -/
def readerWaits : List Label :=
  [.main, .reader, .reader, .reader, .main]

theorem no_lost_wakeup_readerWaits :
    ∃ s : State,
      (system fullZero).Reachable s ∧
      s.reader = .waiting ∧
      ∃ a, IsProgramStep a ∧ (system fullZero).Enabled s a := by
  have hstart : (system fullZero).Reachable (start fullZero) := .init rfl
  obtain ⟨s, hs, htest⟩ :=
    TransitionSystem.exists_reachable_of_exec readerWaits
      (fun s => s.reader = .waiting) hstart (by decide) (by decide)
  have hwaiting : s.reader = .waiting := of_decide_eq_true htest
  refine ⟨s, hs, hwaiting, (no_lost_wakeup _ hs).1 ?_⟩
  rintro ⟨hover, -⟩
  rw [hwaiting] at hover
  cases hover

end Wakeup

end CondVarExample
end Threads
end OsSeminars
