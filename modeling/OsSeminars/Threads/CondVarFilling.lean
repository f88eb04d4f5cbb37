import OsSeminars.Threads.CondVarExample

/-!
# 15-threads/cond-var-example.c: the announcement

For all schedules and any number of spurious wakeups, the reader announces the
buffer only when it is filled, provided that `full` does not start with the
value 1 by chance: the loop of the reader tests exactly this value, so a run
that starts with it passes the loop at once.
-/

namespace OsSeminars
namespace Threads
namespace CondVarExample

open Foundation

/-- The reader has left its waiting loop. -/
def PassedLoop : ReaderPc → Prop
  | .announce => True
  | .unlock => True
  | .returned => True
  | _ => False

/-- The reader passes its loop only when the server holds the whole message. -/
def AnnouncesFilled (c : Config) : Prop :=
  ∀ s, (system c).Reachable s → PassedLoop s.reader → s.srv.len = c.msgLen

section Frames

variable {c : Config} {s t : State}

/-- What `main` knows about the threads. -/
def MainKnows (s : State) : Prop :=
  match s.main with
  | .createReader => s.reader = .notCreated ∧ s.writer = .notCreated
  | .createWriter => s.reader ≠ .notCreated ∧ s.writer = .notCreated
  | _ => s.reader ≠ .notCreated ∧ s.writer ≠ .notCreated

theorem readerNext_frame
    (h : readerNext s = some t) :
    s.reader ≠ .notCreated ∧
    t.reader ≠ .notCreated ∧
    t.writer = s.writer ∧
    t.main = s.main := by
  unfold readerNext at h
  split at h <;> grind [Option.map_eq_some_iff]

theorem writerNext_frame
    {woken : Option Thread}
    (h : writerNext c s woken = some t) :
    s.writer ≠ .notCreated ∧
    t.writer ≠ .notCreated ∧
    t.reader = s.reader ∧
    t.main = s.main := by
  unfold writerNext writerWrite at h
  split at h <;> grind [Option.map_eq_some_iff]

/-- A step of one thread tells `main` nothing new. -/
theorem mainKnows_of_thread
    (h : MainKnows s)
    (hmain : t.main = s.main)
    (hreader : t.reader = .notCreated ↔ s.reader = .notCreated)
    (hwriter : t.writer = .notCreated ↔ s.writer = .notCreated) :
    MainKnows t := by
  unfold MainKnows at h ⊢
  rw [hmain]
  cases hpc : s.main <;> rw [hpc] at h <;> simpa [hreader, hwriter] using h

theorem mainKnows_mainNext
    (hknows : MainKnows s)
    (h : mainNext s = some t) :
    MainKnows t := by
  unfold mainNext at h
  unfold MainKnows at hknows ⊢
  split at h <;> grind

theorem mainKnows_step
    {a : Label}
    (hknows : MainKnows s)
    (h : next c s a = some t) :
    MainKnows t := by
  cases a with
  | main =>
      exact mainKnows_mainNext hknows h
  | reader =>
      obtain ⟨hold, hnew, hwriter, hmain⟩ := readerNext_frame h
      exact mainKnows_of_thread hknows hmain (by simp [hold, hnew])
        (by rw [hwriter])
  | writer woken =>
      obtain ⟨hold, hnew, hreader, hmain⟩ := writerNext_frame h
      exact mainKnows_of_thread hknows hmain (by rw [hreader])
        (by simp [hold, hnew])
  | spuriousWakeup u =>
      obtain ⟨m, -, rfl⟩ := Option.map_eq_some_iff.mp h
      exact hknows

end Frames

section Filling

/-- The writer has set `full`. -/
def HasSetFull : WriterPc → Prop
  | .signal => True
  | .unlock => True
  | .returned => True
  | _ => False

/-- How far the server is filled at each point of the writer. -/
def WriterPc.Filled
    (c : Config)
    (len : Nat) :
    WriterPc → Prop
  | .notCreated => len = 0
  | .lock => len = 0
  | .loop i => len = i ∧ i ≤ c.msgLen
  | .write i w =>
      i < c.msgLen ∧ w.Current len ∧ len + w.uncounted = i + w.stored
  | .sleep i => len = i + 1 ∧ i + 1 ≤ c.msgLen
  | .setFull => len = c.msgLen
  | .signal => len = c.msgLen
  | .unlock => len = c.msgLen
  | .returned => len = c.msgLen

theorem len_le_of_filled
    {c : Config}
    {len : Nat}
    {pc : WriterPc}
    (h : pc.Filled c len) :
    len ≤ c.msgLen := by
  cases pc with
  | write i w =>
      obtain ⟨hi, -, hlen⟩ := h
      have hstored : w.stored ≤ 1 := by
        cases w <;> simp [WritePc.stored]
      omega
  | _ =>
      simp only [WriterPc.Filled] at h
      omega

theorem filled_of_hasSetFull
    {c : Config}
    {len : Nat}
    {pc : WriterPc}
    (h : pc.Filled c len)
    (hset : HasSetFull pc) :
    len = c.msgLen := by
  cases pc <;> first | exact h | exact hset.elim

structure FillingInv
    (c : Config)
    (s : State) : Prop where
  cap_eq : s.srv.cap = c.msgLen
  filled : s.writer.Filled c s.srv.len
  full_set : s.full = 1 → c.initialFull = 1 ∨ HasSetFull s.writer
  passed : PassedLoop s.reader → s.full = 1

variable {c : Config} {s t : State}

theorem fillingInv_start
    (c : Config) :
    FillingInv c (start c) where
  cap_eq := rfl
  filled := rfl
  full_set h := Or.inl h
  passed h := h.elim

/-- A step of the writer before it sets `full`. -/
theorem fillingInv_writer
    {m : Monitor Thread}
    {srv : Server}
    {pc : WriterPc}
    (hinv : FillingInv c s)
    (hcap : srv.cap = s.srv.cap)
    (hfilled : pc.Filled c srv.len)
    (hunset : ¬ HasSetFull s.writer) :
    FillingInv c { s with monitor := m, srv := srv, writer := pc } where
  cap_eq := hcap.trans hinv.cap_eq
  filled := hfilled
  full_set h := (hinv.full_set h).imp_right fun hset => absurd hset hunset
  passed := hinv.passed

/-- A step of the writer that has set `full`, or sets it now. -/
theorem fillingInv_hasSetFull
    {m : Monitor Thread}
    {full : UInt8}
    {pc : WriterPc}
    (hinv : FillingInv c s)
    (hfilled : pc.Filled c s.srv.len)
    (hset : HasSetFull pc)
    (hfull : full = s.full ∨ full = 1) :
    FillingInv c { s with monitor := m, full := full, writer := pc } where
  cap_eq := hinv.cap_eq
  filled := hfilled
  full_set _ := Or.inr hset
  passed hpassed := by
    rcases hfull with rfl | rfl
    · exact hinv.passed hpassed
    · rfl

theorem writerWrite_of_not_ret
    {i : Nat}
    {w : WritePc}
    (hw : ∀ r, w ≠ .ret r) :
    writerWrite s i w =
      { s with
        srv := (w.step s.srv (messageChar i)).1
        writer := .write i (w.step s.srv (messageChar i)).2 } := by
  cases w with
  | ret r => exact absurd rfl (hw r)
  | _ => rfl

theorem fillingInv_write
    {i : Nat}
    {w : WritePc}
    (hinv : FillingInv c s)
    (hpc : s.writer = .write i w) :
    FillingInv c (writerWrite s i w) := by
  have hfilled := hinv.filled
  have hcap := hinv.cap_eq
  have hunset : ¬ HasSetFull s.writer := by
    rw [hpc]
    exact not_false
  rw [hpc] at hfilled
  obtain ⟨hi, hcurrent, hlen⟩ := hfilled
  by_cases hret : ∃ r, w = .ret r
  · obtain ⟨r, rfl⟩ := hret
    exact fillingInv_writer hinv rfl ⟨hlen, hi⟩ hunset
  · rw [writerWrite_of_not_ret (fun r hr => hret ⟨r, hr⟩)]
    have hroom : s.srv.len + w.uncounted + 1 ≤ s.srv.cap + w.stored := by
      omega
    have hsize : s.srv.cap < sizeMod := by
      rw [hcap]
      exact c.msgLen_lt
    rcases WritePc.step_cases (messageChar i) hcurrent hroom hsize with
      ⟨-, w', hw, hcur, huncounted, hstored⟩ | ⟨rfl, hw⟩ | ⟨rfl, hw⟩
    · rw [hw]
      refine fillingInv_writer hinv rfl ⟨hi, hcur, ?_⟩ hunset
      rw [huncounted, hstored]
      exact hlen
    · rw [hw]
      refine fillingInv_writer hinv rfl ⟨hi, trivial, ?_⟩ hunset
      simp only [WritePc.uncounted, WritePc.stored] at hlen ⊢
      omega
    · rw [hw]
      refine fillingInv_writer hinv rfl ⟨hi, rfl, ?_⟩ hunset
      simp only [WritePc.uncounted, WritePc.stored] at hlen ⊢
      omega

theorem fillingInv_writerNext
    {woken : Option Thread}
    (hinv : FillingInv c s)
    (h : writerNext c s woken = some t) :
    FillingInv c t := by
  have hfilled := hinv.filled
  unfold writerNext at h
  cases hpc : s.writer with
  | notCreated =>
      rw [hpc] at h
      cases h
  | lock =>
      rw [hpc] at h hfilled
      obtain ⟨m, -, rfl⟩ := Option.map_eq_some_iff.mp h
      exact fillingInv_writer hinv rfl ⟨hfilled, Nat.zero_le _⟩ (by simp [hpc, HasSetFull])
  | loop i =>
      rw [hpc] at h hfilled
      cases h
      obtain ⟨hlen, hi⟩ := hfilled
      have hunset : ¬ HasSetFull s.writer := by
        rw [hpc]
        exact not_false
      by_cases hlt : i < c.msgLen
      · rw [if_pos hlt]
        exact fillingInv_writer hinv rfl ⟨hlt, trivial, hlen⟩ hunset
      · rw [if_neg hlt]
        have hlast : s.srv.len = c.msgLen := by omega
        exact fillingInv_writer hinv rfl hlast hunset
  | write i w =>
      rw [hpc] at h
      cases h
      exact fillingInv_write hinv hpc
  | sleep i =>
      rw [hpc] at h hfilled
      cases h
      exact fillingInv_writer hinv rfl hfilled (by simp [hpc, HasSetFull])
  | setFull =>
      rw [hpc] at h hfilled
      cases h
      exact fillingInv_hasSetFull hinv hfilled trivial (Or.inr rfl)
  | signal =>
      rw [hpc] at h hfilled
      obtain ⟨m, -, rfl⟩ := Option.map_eq_some_iff.mp h
      exact fillingInv_hasSetFull hinv hfilled trivial (Or.inl rfl)
  | unlock =>
      rw [hpc] at h hfilled
      obtain ⟨m, -, rfl⟩ := Option.map_eq_some_iff.mp h
      exact fillingInv_hasSetFull hinv hfilled trivial (Or.inl rfl)
  | returned =>
      rw [hpc] at h
      cases h

/-- A step of the reader; it passes its loop only by the test of `full`. -/
theorem fillingInv_reader
    {m : Monitor Thread}
    {pc : ReaderPc}
    (hinv : FillingInv c s)
    (hpassed : PassedLoop pc → PassedLoop s.reader ∨ s.full = 1) :
    FillingInv c { s with monitor := m, reader := pc } where
  cap_eq := hinv.cap_eq
  filled := hinv.filled
  full_set := hinv.full_set
  passed h := (hpassed h).elim hinv.passed id

theorem fillingInv_readerNext
    (hinv : FillingInv c s)
    (h : readerNext s = some t) :
    FillingInv c t := by
  unfold readerNext at h
  cases hpc : s.reader with
  | notCreated =>
      rw [hpc] at h
      cases h
  | lock =>
      rw [hpc] at h
      obtain ⟨m, -, rfl⟩ := Option.map_eq_some_iff.mp h
      exact fillingInv_reader hinv (fun h => h.elim)
  | testFull =>
      rw [hpc] at h
      cases h
      by_cases hfull : s.full = 1
      · exact fillingInv_reader hinv (fun _ => Or.inr hfull)
      · rw [if_pos hfull]
        exact fillingInv_reader hinv (fun h => h.elim)
  | condWait =>
      rw [hpc] at h
      obtain ⟨m, -, rfl⟩ := Option.map_eq_some_iff.mp h
      exact fillingInv_reader hinv (fun h => h.elim)
  | waiting =>
      rw [hpc] at h
      dsimp only at h
      split_ifs at h
      obtain ⟨m, -, rfl⟩ := Option.map_eq_some_iff.mp h
      exact fillingInv_reader hinv (fun h => h.elim)
  | announce =>
      rw [hpc] at h
      cases h
      exact fillingInv_reader hinv (fun _ => Or.inl (by rw [hpc]; trivial))
  | unlock =>
      rw [hpc] at h
      obtain ⟨m, -, rfl⟩ := Option.map_eq_some_iff.mp h
      exact fillingInv_reader hinv (fun _ => Or.inl (by rw [hpc]; trivial))
  | returned =>
      rw [hpc] at h
      cases h

theorem fillingInv_mainNext
    (hinv : FillingInv c s)
    (hknows : MainKnows s)
    (h : mainNext s = some t) :
    FillingInv c t := by
  unfold mainNext at h
  cases hpc : s.main with
  | createReader =>
      rw [hpc] at h
      cases h
      exact
        { cap_eq := hinv.cap_eq
          filled := hinv.filled
          full_set := hinv.full_set
          passed := fun h => h.elim }
  | createWriter =>
      rw [hpc] at h
      cases h
      have hnot : s.writer = .notCreated := by
        unfold MainKnows at hknows
        rw [hpc] at hknows
        exact hknows.2
      have hfilled := hinv.filled
      rw [hnot] at hfilled
      exact
        { cap_eq := hinv.cap_eq
          filled := hfilled
          full_set := fun h =>
            (hinv.full_set h).imp_right fun hset => by
              simp [hnot, HasSetFull] at hset
          passed := hinv.passed }
  | joinReader =>
      rw [hpc] at h
      dsimp only at h
      split_ifs at h
      cases h
      exact ⟨hinv.cap_eq, hinv.filled, hinv.full_set, hinv.passed⟩
  | joinWriter =>
      rw [hpc] at h
      dsimp only at h
      split_ifs at h
      cases h
      exact ⟨hinv.cap_eq, hinv.filled, hinv.full_set, hinv.passed⟩
  | finished =>
      rw [hpc] at h
      cases h

theorem fillingInv_of_reachable
    (h : (system c).Reachable s) :
    FillingInv c s := by
  refine (h.invariant (I := fun s => FillingInv c s ∧ MainKnows s) ?_ ?_).1
  · rintro _ rfl
    exact ⟨fillingInv_start c, rfl, rfl⟩
  · rintro s a t ⟨hinv, hknows⟩ ⟨-, hnext⟩
    refine ⟨?_, mainKnows_step hknows hnext⟩
    cases a with
    | main => exact fillingInv_mainNext hinv hknows hnext
    | reader => exact fillingInv_readerNext hinv hnext
    | writer woken => exact fillingInv_writerNext hinv hnext
    | spuriousWakeup u =>
        obtain ⟨m, -, rfl⟩ := Option.map_eq_some_iff.mp hnext
        exact fillingInv_reader hinv (fun h => Or.inl h)

/-- If `full` happens to start with 1, the reader passes the loop at once. -/
theorem reader_first
    (hfull : c.initialFull = 1) :
    ∃ s, (system c).Reachable s ∧ PassedLoop s.reader ∧ s.srv.len = 0 := by
  have hrun :=
    TransitionSystem.reachable_of_exec [.main, .reader, .reader]
      (.init rfl : (system c).Reachable (start c)) rfl rfl
  refine ⟨_, hrun, ?_, rfl⟩
  show PassedLoop (if c.initialFull ≠ 1 then .condWait else .announce)
  rw [if_neg (not_not.mpr hfull)]
  trivial

/--
The reader announces only a filled buffer in all runs if and only if `full`
starts with another value than 1, or there is nothing to fill.
-/
theorem announcesFilled_iff
    (c : Config) :
    AnnouncesFilled c ↔ c.initialFull ≠ 1 ∨ c.msgLen = 0 := by
  constructor
  · intro hall
    by_cases hfull : c.initialFull = 1
    · obtain ⟨s, hs, hpassed, hlen⟩ := reader_first hfull
      exact Or.inr ((hall s hs hpassed).symm.trans hlen)
    · exact Or.inl hfull
  · rintro hcond s hs hpassed
    have hinv := fillingInv_of_reachable hs
    rcases hcond with hfull | hempty
    · have hset := (hinv.full_set (hinv.passed hpassed)).resolve_left hfull
      exact filled_of_hasSetFull hinv.filled hset
    · have hle := len_le_of_filled hinv.filled
      omega

/-- The message length of the source, with 1 in the variable `full`. -/
def fullByChance : Config where
  msgLen := 3
  msgLen_lt := by decide
  initialFull := 1

theorem not_announcesFilled_fullByChance :
    ¬ AnnouncesFilled fullByChance := by
  intro hall
  obtain ⟨s, hs, hpassed, hlen⟩ := reader_first (c := fullByChance) rfl
  have hthree := hall s hs hpassed
  rw [hlen] at hthree
  cases hthree

end Filling

end CondVarExample
end Threads
end OsSeminars
