import OsSeminars.DupPipe.FifoReaderWriter

/-!
# `fifo-reader.c` and `fifo-writer.c`: all writers can finish

Once a reader has opened the named pipe, nobody waits in vain: a writer that sleeps in
`open` is let in, a write that finds no room has bytes in front of it that the reader
takes out, and no write is without a reader. So every state of a run can be continued
to one in which all writers have ended and the reader has all of their bytes.
-/

namespace OsSeminars
namespace DupPipe
namespace FifoReaderWriter

open Foundation

/-- The steps that a writer has still to make when no call fails. -/
def WriterPc.stepsLeft : WriterPc → Nat
  | mkfifo => 38
  | openFifo => 37
  | opening _ => 36
  | pressEnter => 35
  | fgetc => 34
  | loop i => 3 * (10 - i) + 3
  | write i => 3 * (10 - i) + 2
  | sleep i => 3 * (10 - i) + 1
  | close => 2
  | done => 1
  | exited _ | killed => 0

/-- The steps of the reader until its next `read`. -/
def ReaderPc.untilRead : ReaderPc → Nat
  | print => 2
  | sleep => 1
  | _ => 0

/-- A message in the pipe counts less than the step that has written it. -/
def stepsLeft
    {C : Nat}
    (s : State C) :
    Nat :=
  10 * total WriterPc.stepsLeft s.writers + 3 * s.fifo.pipe.buffered.length +
    s.reader.untilRead

/-- The writer has ended. -/
def Writer.Ended
    (w : Writer) :
    Prop :=
  ∃ status, w.pc = .exited status

section Progress

variable {C m : Nat} {created : Bool} {ch₀ : Buffer UInt8 1} {s : State C}

/-- A step of a writer that brings it closer to its end, when there is a reader and the
pipe has room for a message. -/
theorem exists_writerNext
    {fifo : NamedPipe UInt8 C}
    {w : Writer}
    (hok : w.Ok 1)
    (hends : fifo.pipe.openEnds .read = 1)
    (hopened : fifo.opened .read = 1)
    (hroom : fifo.pipe.buffered.length + message.length ≤ C)
    (hw : ¬ w.Ended) :
    ∃ fifo' w', writerNext fifo w false = some (fifo', w') ∧
      10 * w'.pc.stepsLeft + 3 * fifo'.pipe.buffered.length <
        10 * w.pc.stepsLeft + 3 * fifo.pipe.buffered.length := by
  obtain ⟨pc, printed⟩ := w
  obtain ⟨hrange, hawaited, -, -⟩ := hok
  dsimp only at hrange hawaited
  cases pc with
  | openFifo =>
      have hnone : fifo.awaited .write = none := by
        rw [NamedPipe.awaited_eq_none_iff, PipeEnd.other, hends]
        exact Nat.one_ne_zero
      refine ⟨_, _, by simp only [writerNext, hnone]; rfl, ?_⟩
      simp only [WriterPc.stepsLeft, NamedPipe.enter_buffered]
      omega
  | opening seen =>
      have hcame : fifo.PartnerCame .write seen := by
        rw [NamedPipe.PartnerCame, PipeEnd.other, hopened, hawaited seen rfl]
        exact Nat.one_ne_zero
      refine ⟨_, _, by simp only [writerNext, if_pos hcame]; rfl, ?_⟩
      simp only [WriterPc.stepsLeft]
      omega
  | loop i =>
      by_cases hi : i < 10
      · refine ⟨_, _, by simp only [writerNext, if_pos hi]; rfl, ?_⟩
        simp only [WriterPc.stepsLeft]
        omega
      · refine ⟨_, _, by simp only [writerNext, if_neg hi]; rfl, ?_⟩
        simp only [WriterPc.stepsLeft]
        omega
  | write i =>
      have hreader : fifo.pipe.openEnds .read ≠ 0 := by
        rw [hends]
        exact Nat.one_ne_zero
      obtain ⟨pipe, haccept⟩ :=
        Option.isSome_iff_exists.mp (Pipe.accept_isSome_iff.mpr hroom)
      obtain ⟨hbuffered, -⟩ := Pipe.accept_eq_some haccept
      refine ⟨_, _, by simp only [writerNext, if_neg hreader, haccept]; rfl, ?_⟩
      simp only [WriterPc.stepsLeft, hbuffered, List.length_append]
      simp only [message, List.length_map, List.length_cons, List.length_nil]
      omega
  | sleep i =>
      simp only [WriterPc.InRange] at hrange
      refine ⟨_, _, rfl, ?_⟩
      simp only [WriterPc.stepsLeft]
      omega
  | close =>
      have hread : fifo.pipe.openEnds .read ≠ 0 := by
        rw [hends]
        exact Nat.one_ne_zero
      refine ⟨_, _, rfl, ?_⟩
      rw [NamedPipe.close_buffered_of_other fifo .write hread]
      simp only [WriterPc.stepsLeft]
      omega
  | exited status =>
      exact absurd ⟨status, rfl⟩ hw
  | killed =>
      exact hrange.elim
  | _ =>
      refine ⟨_, _, rfl, ?_⟩
      simp only [WriterPc.stepsLeft, Bool.false_eq_true, if_false]
      omega

/-- The same as a step of all processes. -/
theorem exists_writer_step
    (h : Accounted m s)
    (hreader : s.reader.Opened)
    (hroom : s.fifo.pipe.buffered.length + message.length ≤ C)
    {w : Writer}
    (hmem : w ∈ s.writers)
    (hw : ¬ w.Ended) :
    ∃ label t, next s label = some t ∧ t.reader = s.reader ∧
      stepsLeft t < stepsLeft s := by
  have hentered := hreader.entered
  have hok := h.writers w hmem
  rw [hentered] at hok
  obtain ⟨fifo', w', hnext, hlower⟩ := exists_writerNext hok
    (h.readEnds.trans hentered) (h.readOpened.trans hentered) hroom hw
  obtain ⟨i, hi⟩ := List.getElem?_of_mem hmem
  refine ⟨.writer i false,
    { s with
      created := createdBy s.created w false
      fifo := fifo'
      writers := s.writers.set i w' },
    by simp only [next, hi, hnext, Option.map_some], rfl, ?_⟩
  have htotal := total_set WriterPc.stepsLeft hi w'
  simp only [stepsLeft]
  omega

/-- A step of the reader that is not about to read from an empty pipe. -/
theorem exists_reader_step
    (hreader : s.reader.Opened)
    (hbusy : s.reader = .read → s.fifo.pipe.buffered ≠ []) :
    ∃ label t, next s label = some t ∧ t.reader.Opened ∧ stepsLeft t < stepsLeft s := by
  cases hpc : s.reader with
  | read =>
      obtain ⟨x, rest, hbuffered⟩ := List.exists_cons_of_ne_nil (hbusy hpc)
      obtain ⟨pipe, hread, hrest, -⟩ := Pipe.readOne_cons hbuffered
      refine ⟨.reader false, _, by simp only [next, readerNext, hpc, readerRead, hread]; rfl,
        ?_, ?_⟩
      · trivial
      · simp only [stepsLeft, hpc, hbuffered, hrest, ReaderPc.untilRead, List.length_cons]
        omega
  | print =>
      refine ⟨.reader false, _, by simp only [next, readerNext, hpc]; rfl, ?_, ?_⟩
      · trivial
      · simp only [stepsLeft, hpc, ReaderPc.untilRead]
        omega
  | sleep =>
      refine ⟨.reader false, _, by simp only [next, readerNext, hpc]; rfl, ?_, ?_⟩
      · trivial
      · simp only [stepsLeft, hpc, ReaderPc.untilRead]
        omega
  | _ =>
      rw [hpc] at hreader
      exact hreader.elim

/-- All writers have ended, and the reader waits with an empty pipe. -/
structure Finished
    (s : State C) :
    Prop where
  writers : ∀ w ∈ s.writers, w.Ended
  reader : s.reader = .read
  buffered : s.fifo.pipe.buffered = []

theorem finished_or_step
    (h : Accounted m s)
    (hreader : s.reader.Opened)
    (hroom : message.length ≤ C) :
    Finished s ∨ ∃ label t, next s label = some t ∧ t.reader.Opened ∧
      stepsLeft t < stepsLeft s := by
  by_cases hidle : s.reader = .read ∧ s.fifo.pipe.buffered = []
  · obtain ⟨hpc, hempty⟩ := hidle
    by_cases hended : ∀ w ∈ s.writers, w.Ended
    · exact Or.inl ⟨hended, hpc, hempty⟩
    · push Not at hended
      obtain ⟨w, hmem, hw⟩ := hended
      obtain ⟨label, t, hnext, hsame, hlower⟩ := exists_writer_step h hreader
        (by rw [hempty, List.length_nil, Nat.zero_add]; exact hroom) hmem hw
      exact Or.inr ⟨label, t, hnext, by rw [hsame]; exact hreader, hlower⟩
  · exact Or.inr (exists_reader_step hreader fun hpc hempty => hidle ⟨hpc, hempty⟩)

/-- The writers that have not failed. -/
def succeeded
    (s : State C) :
    Nat :=
  s.writers.countP fun w => w.pc = .exited 0

theorem total_writes_of_ended
    {writers : List Writer}
    (h : ∀ w ∈ writers, w.Ended) :
    total WriterPc.writes writers = 10 * writers.countP fun w => w.pc = .exited 0 := by
  induction writers with
  | nil =>
      rfl
  | cons w writers ih =>
      have hrest := ih fun w hw => h w (List.mem_cons_of_mem _ hw)
      obtain ⟨status, hstatus⟩ := h w List.mem_cons_self
      rw [total] at hrest ⊢
      rw [List.map_cons, List.sum_cons, hrest, List.countP_cons, hstatus]
      cases status with
      | zero =>
          simp only [WriterPc.writes, decide_true, if_true]
          omega
      | succ status =>
          simp [WriterPc.writes]

/-- In a finished state the reader has ten messages of every writer that has not
failed. -/
theorem Finished.received
    (hfinished : Finished s)
    (h : Accounted m s) :
    s.received.flatten = (List.replicate (10 * succeeded s) message).flatten := by
  rw [succeeded, ← total_writes_of_ended hfinished.writers, ← h.stream,
    hfinished.buffered, List.append_nil]

/-- No writer is ever ended by a signal, and once a reader has opened the named pipe all
writers can end and the reader can have ten messages of each that has not failed. -/
theorem exists_finished
    (C m : Nat)
    (created : Bool)
    (ch₀ : Buffer UInt8 1)
    (s : State C)
    (h : (system C m created ch₀).Reachable s) :
    (∀ w ∈ s.writers, w.pc ≠ .killed ∧ w.printed = w.pc.lines) ∧
    (s.reader.Opened → message.length ≤ C →
      ∃ t, (system C m created ch₀).Runs s t ∧ (∀ w ∈ t.writers, w.Ended) ∧
        t.received.flatten = (List.replicate (10 * succeeded t) message).flatten) := by
  have haccounted := accounted_reachable h
  constructor
  · intro w hw
    refine ⟨fun hkilled => ?_, (haccounted.writers w hw).printed⟩
    have hrange := (haccounted.writers w hw).inRange
    rw [hkilled] at hrange
    exact hrange
  · intro hreader hroom
    obtain ⟨t, hrun, ⟨ht, -⟩, hfinished⟩ :=
      TransitionSystem.exists_runs_of_measure (T := system C m created ch₀)
        (I := fun s => Accounted m s ∧ s.reader.Opened) (P := Finished) stepsLeft
        (fun s hs => by
          rcases finished_or_step hs.1 hs.2 hroom with hgoal | ⟨label, t, hnext, ht, hlower⟩
          · exact Or.inl hgoal
          · exact Or.inr ⟨label, t, ⟨trivial, hnext⟩, ⟨hs.1.next hnext, ht⟩, hlower⟩)
        ⟨haccounted, hreader⟩
    exact ⟨t, hrun, hfinished.writers, hfinished.received ht⟩

/-- The reader has opened the named pipe while the writer sleeps in `open`. -/
theorem exists_finished_meeting :
    ∃ t : State 3, (∀ w ∈ t.writers, w.Ended) ∧
      t.received.flatten = (List.replicate (10 * succeeded t) message).flatten := by
  have hstart : (system 3 1 false someCh).Reachable (start 3 1 false someCh) :=
    TransitionSystem.Reachable.init rfl
  have hrun :=
    TransitionSystem.exists_reachable_of_exec
      (meeting.take 3)
      (fun s => decide (s.reader = .read))
      hstart
      (by decide)
      (by decide)
  obtain ⟨s, hs, htest⟩ := hrun
  have hreader : s.reader.Opened := by
    rw [of_decide_eq_true htest]
    trivial
  obtain ⟨t, -, hended, hreceived⟩ :=
    (exists_finished 3 1 false someCh s hs).2 hreader (Nat.le_refl 3)
  exact ⟨t, hended, hreceived⟩

end Progress

end FifoReaderWriter
end DupPipe
end OsSeminars
