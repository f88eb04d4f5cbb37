import OsSeminars.Foundation.Buffer
import OsSeminars.Foundation.NamedPipe
import OsSeminars.Foundation.Termination
import OsSeminars.Foundation.TransitionSystem
import Mathlib.Algebra.BigOperators.Ring.List
import Mathlib.Algebra.Order.BigOperators.Group.List
import Mathlib.Algebra.Order.Ring.Nat
import Mathlib.Data.List.Destutter

/-!
# `fifo-reader.c` and `fifo-writer.c`: any number of writers and one reader

The writers create the named pipe if it is not there, open it, and write `"123"` ten
times each. The writes are not longer than `PIPE_BUF`, so each is made at once or not at
all. The reader reads byte by byte, without an end. It does not look at what `read`
returns: at the end of the file it prints the character that the byte before has left in
`ch`. The variable is one place of the stack frame of `main`, and its first contents are
not known.

The processes start at any time and in any order. A label says which process moves, and
whether a call that opens or creates something fails for a reason of its own. Nobody
sends signals; a write without a reader would end a writer.
-/

namespace OsSeminars
namespace DupPipe
namespace FifoReaderWriter

open Foundation

/-- The bytes of `"123"`. -/
def message : List UInt8 :=
  ['1', '2', '3'].map Char.toUInt8

/-- `main` of the reader; `opening` sleeps in `open`. -/
inductive ReaderPc
  | openFifo
  | opening (seen : Nat)
  | read
  | print
  | sleep
  | exited (status : Nat)
  deriving DecidableEq

/-- `main` of a writer; `loop` tests `i < 10` and prints, `killed` is `SIGPIPE`. -/
inductive WriterPc
  | mkfifo
  | openFifo
  | opening (seen : Nat)
  | pressEnter
  | fgetc
  | loop (i : Nat)
  | write (i : Nat)
  | sleep (i : Nat)
  | close
  | done
  | exited (status : Nat)
  | killed
  deriving DecidableEq

structure Writer where
  pc : WriterPc
  /-- the texts passed to `printf` -/
  printed : List String

structure State (C : Nat) where
  /-- `fifo_path` exists -/
  created : Bool
  fifo : NamedPipe UInt8 C
  reader : ReaderPc
  ch : Buffer UInt8 1
  /-- what the calls of `read` have stored -/
  received : List (List UInt8)
  /-- the characters that were printed behind `recv: ` -/
  printed : List UInt8
  writers : List Writer

/-- Which process moves, and whether its call fails for a reason of its own. -/
inductive Label
  | reader (fails : Bool)
  | writer (i : Nat) (fails : Bool)
  deriving DecidableEq

/-- The processes before their first step. -/
def start
    (C m : Nat)
    (created : Bool)
    (ch : Buffer UInt8 1) :
    State C where
  created := created
  fifo := .created
  reader := .openFifo
  ch := ch
  received := []
  printed := []
  writers := List.replicate m { pc := .mkfifo, printed := [] }

section Steps

variable {C : Nat}

/-- One step of a writer, with what becomes of the file system. -/
def writerNext
    (fifo : NamedPipe UInt8 C)
    (w : Writer)
    (fails : Bool) :
    Option (NamedPipe UInt8 C × Writer) :=
  match w.pc with
  | .mkfifo => some (fifo, { w with pc := if fails then .exited 1 else .openFifo })
  | .openFifo =>
      if fails then some (fifo, { w with pc := .exited 1 })
      else
        match fifo.awaited .write with
        | none => some (fifo.enter .write, { w with pc := .pressEnter })
        | some seen => some (fifo.enter .write, { w with pc := .opening seen })
  | .opening seen =>
      if fifo.PartnerCame .write seen then some (fifo, { w with pc := .pressEnter })
      else none
  | .pressEnter =>
      some (fifo, { w with pc := .fgetc, printed := w.printed ++ ["press enter\n"] })
  | .fgetc => some (fifo, { w with pc := .loop 0 })
  | .loop i =>
      if i < 10 then
        some (fifo,
          { w with pc := .write i, printed := w.printed ++ ["writing to fifo1\n"] })
      else some (fifo, { w with pc := .close })
  | .write i =>
      if fifo.pipe.openEnds .read = 0 then
        some (fifo.close .write, { w with pc := .killed })
      else
        (fifo.pipe.accept message).map fun pipe =>
          ({ fifo with pipe := pipe }, { w with pc := .sleep i })
  | .sleep i => some (fifo, { w with pc := .loop (i + 1) })
  | .close => some (fifo.close .write, { w with pc := .done })
  | .done => some (fifo, { w with pc := .exited 0, printed := w.printed ++ ["done\n"] })
  | .exited _ => none
  | .killed => none

/-- `mkfifo` leaves the named pipe there, whether it was there before or not. -/
def createdBy
    (created : Bool)
    (w : Writer)
    (fails : Bool) :
    Bool :=
  created || (w.pc = .mkfifo && !fails)

variable (s : State C)

/-- `read(fd, &ch, 1)`, which leaves `ch` alone at the end of the file. -/
def readerRead :
    Option (State C) :=
  match s.fifo.pipe.readOne with
  | .element x pipe =>
      some { s with
        fifo := { s.fifo with pipe := pipe }
        ch := s.ch.overwrite [x]
        received := s.received ++ [[x]]
        reader := .print }
  | .endOfFile =>
      some { s with
        ch := s.ch.overwrite []
        received := s.received ++ [[]]
        reader := .print }
  | .blocked => none

/-- One step of the reader. -/
def readerNext
    (fails : Bool) :
    Option (State C) :=
  match s.reader with
  | .openFifo =>
      if fails || !s.created then some { s with reader := .exited 1 }
      else
        match s.fifo.awaited .read with
        | none => some { s with fifo := s.fifo.enter .read, reader := .read }
        | some seen =>
            some { s with fifo := s.fifo.enter .read, reader := .opening seen }
  | .opening seen =>
      if s.fifo.PartnerCame .read seen then some { s with reader := .read } else none
  | .read => readerRead s
  | .print => some { s with printed := s.printed ++ s.ch.contents, reader := .sleep }
  | .sleep => some { s with reader := .read }
  | .exited _ => none

def next :
    Label → Option (State C)
  | .reader fails => readerNext s fails
  | .writer i fails =>
      match s.writers[i]? with
      | none => none
      | some w =>
          (writerNext s.fifo w fails).map fun r =>
            { s with
              created := createdBy s.created w fails
              fifo := r.1
              writers := s.writers.set i r.2 }

end Steps

/-- One reader, `m` writers and a named pipe of capacity `C`. -/
def system
    (C m : Nat)
    (created : Bool)
    (ch : Buffer UInt8 1) :
    TransitionSystem (State C) Label :=
  .ofProgram (fun s => s = start C m created ch) (fun _ _ => True) next

section Accounts

/-- The writer has the write end open. -/
def WriterPc.holds : WriterPc → Nat
  | opening _ | pressEnter | fgetc | loop _ | write _ | sleep _ | close => 1
  | _ => 0

/-- The writer has opened the write end, now or before. -/
def WriterPc.entered : WriterPc → Nat
  | mkfifo | openFifo | exited (_ + 1) => 0
  | _ => 1

/-- `open` has returned to the writer. -/
def WriterPc.Opened : WriterPc → Prop
  | mkfifo | openFifo | opening _ | exited (_ + 1) => False
  | _ => True

/-- How many times the writer has written the message. -/
def WriterPc.writes : WriterPc → Nat
  | loop i | write i => i
  | sleep i => i + 1
  | close | done | exited 0 => 10
  | _ => 0

/-- The counter of the loop is in range. -/
def WriterPc.InRange : WriterPc → Prop
  | loop i => i ≤ 10
  | write i | sleep i => i < 10
  | killed => False
  | _ => True

/-- What the writer has printed. -/
def WriterPc.lines : WriterPc → List String
  | fgetc => ["press enter\n"]
  | loop i => "press enter\n" :: List.replicate i "writing to fifo1\n"
  | write i | sleep i => "press enter\n" :: List.replicate (i + 1) "writing to fifo1\n"
  | close | done => "press enter\n" :: List.replicate 10 "writing to fifo1\n"
  | exited 0 => "press enter\n" :: List.replicate 10 "writing to fifo1\n" ++ ["done\n"]
  | _ => []

/-- The reader has opened the read end. -/
def ReaderPc.entered : ReaderPc → Nat
  | openFifo | exited _ => 0
  | _ => 1

/-- `open` has returned to the reader. -/
def ReaderPc.Opened : ReaderPc → Prop
  | read | print | sleep => True
  | _ => False

variable {C : Nat}

/-- The sum over all writers. -/
def total
    (f : WriterPc → Nat)
    (writers : List Writer) :
    Nat :=
  (writers.map fun w => f w.pc).sum

/-- What holds of a writer at each of its points. -/
structure Writer.Ok
    (readerEntered : Nat)
    (w : Writer) :
    Prop where
  inRange : w.pc.InRange
  /-- as long as a writer waits, no reader has come -/
  awaited : ∀ seen, w.pc = .opening seen → seen = 0
  opened : w.pc.Opened → readerEntered = 1
  printed : w.printed = w.pc.lines

/-- The ends are counted right, and the bytes of the writers are in the pipe or have
been read. -/
structure Accounted
    (m : Nat)
    (s : State C) :
    Prop where
  length : s.writers.length = m
  readEnds : s.fifo.pipe.openEnds .read = s.reader.entered
  readOpened : s.fifo.opened .read = s.reader.entered
  writeEnds : s.fifo.pipe.openEnds .write = total WriterPc.holds s.writers
  writeOpened : s.fifo.opened .write = total WriterPc.entered s.writers
  stream : s.received.flatten ++ s.fifo.pipe.buffered =
    (List.replicate (total WriterPc.writes s.writers) message).flatten
  awaited : ∀ seen, s.reader = .opening seen → seen = 0
  opened : s.reader.Opened → 0 < s.fifo.opened .write
  writers : ∀ w ∈ s.writers, w.Ok s.reader.entered

section Totals

variable {f g : WriterPc → Nat} {writers : List Writer} {w w' : Writer} {i : Nat}

theorem total_set
    (f : WriterPc → Nat)
    (hi : writers[i]? = some w)
    (w' : Writer) :
    total f (writers.set i w') + f w.pc = total f writers + f w'.pc :=
  sum_map_set hi (fun w => f w.pc) w'

theorem le_total
    (f : WriterPc → Nat)
    (hw : w ∈ writers) :
    f w.pc ≤ total f writers :=
  List.le_sum_of_mem (List.mem_map_of_mem hw)

theorem total_mono
    (hle : ∀ w ∈ writers, f w.pc ≤ g w.pc) :
    total f writers ≤ total g writers :=
  List.sum_le_sum hle

theorem total_start
    (f : WriterPc → Nat)
    (hf : f .mkfifo = 0)
    (m : Nat) :
    total f (List.replicate m { pc := .mkfifo, printed := [] }) = 0 := by
  simp [total, hf]

end Totals

section WriterSteps

variable {fifo fifo' : NamedPipe UInt8 C} {w w' : Writer} {fails : Bool} {readers : Nat}

/-- What a step of a writer does to the pipe, as the points of the writer count it. -/
structure Effect
    (fifo fifo' : NamedPipe UInt8 C)
    (pc pc' : WriterPc) :
    Prop where
  readEnds : fifo'.pipe.openEnds .read = fifo.pipe.openEnds .read
  readOpened : fifo'.opened .read = fifo.opened .read
  writeEnds :
    fifo'.pipe.openEnds .write + pc.holds = fifo.pipe.openEnds .write + pc'.holds
  writeOpened :
    fifo'.opened .write + pc.entered = fifo.opened .write + pc'.entered
  entered : pc.entered ≤ pc'.entered
  stream : ∃ k, pc'.writes = pc.writes + k ∧
    fifo'.pipe.buffered = fifo.pipe.buffered ++ (List.replicate k message).flatten

/-- A step that leaves the pipe alone. -/
theorem Effect.same
    {pc pc' : WriterPc}
    (hholds : pc'.holds = pc.holds)
    (hentered : pc'.entered = pc.entered)
    (hwrites : pc'.writes = pc.writes) :
    Effect fifo fifo pc pc' :=
  ⟨rfl, rfl, by rw [hholds], by rw [hentered], by rw [hentered], 0, hwrites,
    (List.append_nil _).symm⟩

/-- `open` begins in a writer. -/
theorem Effect.enter
    {pc : WriterPc}
    (hholds : pc.holds = 1)
    (hentered : pc.entered = 1)
    (hwrites : pc.writes = 0) :
    Effect fifo (fifo.enter .write) .openFifo pc where
  readEnds := rfl
  readOpened := rfl
  writeEnds := by
    rw [hholds]
    rfl
  writeOpened := by
    rw [hentered]
    rfl
  entered := Nat.zero_le _
  stream := ⟨0, hwrites, (List.append_nil _).symm⟩

/-- `close` of a writer while the reader has its end open. -/
theorem Effect.close
    (hread : fifo.pipe.openEnds .read ≠ 0)
    (hwrite : 0 < fifo.pipe.openEnds .write) :
    Effect fifo (fifo.close .write) .close .done where
  readEnds := by
    rw [NamedPipe.close_openEnds]
    rfl
  readOpened := rfl
  writeEnds := by
    rw [NamedPipe.close_openEnds, Function.update_self]
    exact Nat.sub_add_cancel hwrite
  writeOpened := rfl
  entered := Nat.le_refl _
  stream := ⟨0, rfl, by
    rw [NamedPipe.close_buffered_of_other fifo .write hread]
    exact (List.append_nil _).symm⟩

/-- A message that the pipe has accepted. -/
theorem Effect.write
    {i : Nat}
    {pipe : Pipe UInt8 C}
    (haccept : fifo.pipe.accept message = some pipe) :
    Effect fifo { fifo with pipe := pipe } (.write i) (.sleep i) := by
  obtain ⟨hbuffered, hends⟩ := Pipe.accept_eq_some haccept
  refine ⟨by rw [hends], rfl, by rw [hends]; rfl, rfl, Nat.le_refl _, 1, rfl, ?_⟩
  rw [hbuffered]
  simp

/-- One step of a writer, from a state in which the ends are counted right. -/
theorem effect_of_writerNext
    (hok : w.Ok readers)
    (hreaders : readers ≤ 1)
    (hends : fifo.pipe.openEnds .read = readers)
    (hopened : fifo.opened .read = readers)
    (hholds : w.pc.holds ≤ fifo.pipe.openEnds .write)
    (h : writerNext fifo w fails = some (fifo', w')) :
    Effect fifo fifo' w.pc w'.pc ∧ w'.Ok readers := by
  obtain ⟨pc, printed⟩ := w
  obtain ⟨hrange, hawaited, hcame, hprinted⟩ := hok
  dsimp only at hrange hawaited hcame hprinted hholds ⊢
  subst hprinted
  cases pc with
  | mkfifo =>
      simp only [writerNext, Option.some.injEq, Prod.mk.injEq] at h
      obtain ⟨rfl, rfl⟩ := h
      cases fails
      · exact ⟨.same rfl rfl rfl, trivial, by simp, by simp [WriterPc.Opened], rfl⟩
      · exact ⟨.same rfl rfl rfl, trivial, by simp, by simp [WriterPc.Opened], rfl⟩
  | openFifo =>
      simp only [writerNext] at h
      split_ifs at h with hfails
      · cases h
        exact ⟨.same rfl rfl rfl, trivial, by simp, by simp [WriterPc.Opened], rfl⟩
      · cases hwait : fifo.awaited .write with
        | none =>
            rw [hwait] at h
            cases h
            refine ⟨.enter rfl rfl rfl, trivial, by simp, fun _ => ?_, rfl⟩
            have hsome := (fifo.awaited_eq_none_iff .write).mp hwait
            rw [PipeEnd.other, hends] at hsome
            omega
        | some seen =>
            rw [hwait] at h
            cases h
            refine ⟨.enter rfl rfl rfl, trivial, ?_, by simp [WriterPc.Opened], rfl⟩
            obtain ⟨hnone, hseen⟩ := (fifo.awaited_eq_some_iff .write).mp hwait
            rintro seen' heq
            cases heq
            rw [← hseen, PipeEnd.other, hopened, ← hends]
            exact hnone
  | opening seen =>
      simp only [writerNext] at h
      split_ifs at h with hpartner
      cases h
      refine ⟨.same rfl rfl rfl, trivial, by simp, fun _ => ?_, rfl⟩
      have hseen := hawaited seen rfl
      rw [NamedPipe.PartnerCame, PipeEnd.other, hopened, hseen] at hpartner
      omega
  | pressEnter =>
      cases h
      exact ⟨.same rfl rfl rfl, trivial, by simp, fun _ => hcame trivial, rfl⟩
  | fgetc =>
      cases h
      exact ⟨.same rfl rfl rfl, Nat.zero_le _, by simp, fun _ => hcame trivial, rfl⟩
  | loop i =>
      simp only [writerNext] at h
      split_ifs at h with hi
      · cases h
        refine ⟨.same rfl rfl rfl, hi, by simp, fun _ => hcame trivial, ?_⟩
        simp [WriterPc.lines, List.replicate_succ']
      · cases h
        have hten : i = 10 := Nat.le_antisymm hrange (Nat.le_of_not_lt hi)
        subst hten
        exact ⟨.same rfl rfl rfl, trivial, by simp, fun _ => hcame trivial, rfl⟩
  | write i =>
      have hone : fifo.pipe.openEnds .read ≠ 0 := by
        rw [hends, hcame trivial]
        exact Nat.one_ne_zero
      simp only [writerNext, if_neg hone] at h
      obtain ⟨pipe, haccept, heq⟩ := Option.map_eq_some_iff.mp h
      cases heq
      exact ⟨.write haccept, hrange, by simp, fun _ => hcame trivial, rfl⟩
  | sleep i =>
      cases h
      exact ⟨.same rfl rfl rfl, hrange, by simp, fun _ => hcame trivial, rfl⟩
  | close =>
      have hone : fifo.pipe.openEnds .read ≠ 0 := by
        rw [hends, hcame trivial]
        exact Nat.one_ne_zero
      cases h
      exact ⟨.close hone hholds, trivial, by simp, fun _ => hcame trivial, rfl⟩
  | done =>
      cases h
      exact ⟨.same rfl rfl rfl, trivial, by simp, fun _ => hcame trivial, rfl⟩
  | exited status =>
      cases h
  | killed =>
      exact hrange.elim

end WriterSteps

section Invariant

variable {s t : State C} {m : Nat} {fails : Bool}

theorem ReaderPc.entered_le_one
    (pc : ReaderPc) :
    pc.entered ≤ 1 := by
  cases pc <;> first | exact Nat.le_refl 1 | exact Nat.zero_le 1

theorem ReaderPc.Opened.entered
    {pc : ReaderPc}
    (h : pc.Opened) :
    pc.entered = 1 := by
  cases pc <;> first | rfl | exact h.elim

theorem accounted_start
    (C m : Nat)
    (created : Bool)
    (ch : Buffer UInt8 1) :
    Accounted m (start C m created ch) where
  length := List.length_replicate
  readEnds := rfl
  readOpened := rfl
  writeEnds := (total_start WriterPc.holds rfl m).symm
  writeOpened := (total_start WriterPc.entered rfl m).symm
  stream := by
    simp only [start]
    rw [total_start WriterPc.writes rfl m]
    rfl
  awaited := fun seen hseen => by cases hseen
  opened := fun hopened => hopened.elim
  writers := fun w hw => by
    rw [(List.mem_replicate.mp hw).2]
    exact ⟨trivial, by simp, fun hopened => hopened.elim, rfl⟩

/-- A step of a writer. -/
theorem Accounted.writer
    (h : Accounted m s)
    {i : Nat}
    {w w' : Writer}
    {fifo' : NamedPipe UInt8 C}
    {created' : Bool}
    (hi : s.writers[i]? = some w)
    (hnext : writerNext s.fifo w fails = some (fifo', w')) :
    Accounted m
      { s with created := created', fifo := fifo', writers := s.writers.set i w' } := by
  have hw : w ∈ s.writers := List.mem_of_getElem? hi
  have hholds : w.pc.holds ≤ s.fifo.pipe.openEnds .write := by
    rw [h.writeEnds]
    exact le_total WriterPc.holds hw
  obtain ⟨heffect, hok⟩ := effect_of_writerNext (h.writers w hw)
    s.reader.entered_le_one h.readEnds h.readOpened hholds hnext
  have hsetHolds := total_set WriterPc.holds hi w'
  have hsetEntered := total_set WriterPc.entered hi w'
  have hsetWrites := total_set WriterPc.writes hi w'
  obtain ⟨k, hk, hbuffered⟩ := heffect.stream
  refine
    { length := by rw [List.length_set]; exact h.length
      readEnds := by rw [heffect.readEnds]; exact h.readEnds
      readOpened := by rw [heffect.readOpened]; exact h.readOpened
      writeEnds := ?_
      writeOpened := ?_
      stream := ?_
      awaited := h.awaited
      opened := fun hreader => ?_
      writers := fun w₁ hw₁ => ?_ }
  · have hbefore := h.writeEnds
    have hchange := heffect.writeEnds
    dsimp only
    omega
  · have hbefore := h.writeOpened
    have hchange := heffect.writeOpened
    dsimp only
    omega
  · have htotal :
        total WriterPc.writes (s.writers.set i w') = total WriterPc.writes s.writers + k := by
      omega
    dsimp only
    rw [htotal, hbuffered, ← List.append_assoc, h.stream, List.replicate_add,
      List.flatten_append]
  · have hbefore := h.opened hreader
    have hchange := heffect.writeOpened
    have hmono := heffect.entered
    dsimp only
    omega
  · rcases List.mem_or_eq_of_mem_set hw₁ with hold | rfl
    · exact h.writers w₁ hold
    · exact hok

/-- Before the reader has come, no writer has closed its end again. -/
theorem Accounted.entered_le_holds
    (h : Accounted m s)
    (hreader : s.reader.entered = 0) :
    total WriterPc.entered s.writers ≤ total WriterPc.holds s.writers := by
  refine total_mono fun w hw => ?_
  have hok := h.writers w hw
  have hclosed : ¬ w.pc.Opened := by
    intro hopened
    have hone := hok.opened hopened
    omega
  cases hpc : w.pc with
  | exited status =>
      rw [hpc] at hclosed
      cases status with
      | zero =>
          exact absurd trivial hclosed
      | succ status =>
          exact Nat.le_refl _
  | _ =>
      rw [hpc] at hclosed
      first
        | exact absurd trivial hclosed
        | exact Nat.le_refl _

theorem holds_le_entered
    (pc : WriterPc) :
    pc.holds ≤ pc.entered := by
  cases pc with
  | exited status =>
      exact Nat.zero_le _
  | _ =>
      first
        | exact Nat.le_refl _
        | exact Nat.zero_le _

/-- The reader begins to open its end. -/
theorem Accounted.enter
    (h : Accounted m s)
    {pc : ReaderPc}
    (hbefore : s.reader.entered = 0)
    (hafter : pc.entered = 1)
    (hawaited : ∀ seen, pc = .opening seen → s.fifo.awaited .read = some seen)
    (hopened : pc.Opened → s.fifo.awaited .read = none) :
    Accounted m { s with fifo := s.fifo.enter .read, reader := pc } := by
  refine
    { length := h.length
      readEnds := ?_
      readOpened := ?_
      writeEnds := h.writeEnds
      writeOpened := h.writeOpened
      stream := h.stream
      awaited := fun seen hseen => ?_
      opened := fun hpc => ?_
      writers := fun w hw => ?_ }
  · dsimp only
    rw [NamedPipe.enter_openEnds, Function.update_self, h.readEnds, hbefore, hafter]
  · dsimp only
    rw [NamedPipe.enter_opened, Function.update_self, h.readOpened, hbefore, hafter]
  · have hwait := hawaited seen hseen
    obtain ⟨hnone, hseen⟩ := (s.fifo.awaited_eq_some_iff .read).mp hwait
    rw [PipeEnd.other] at hnone hseen
    have hle := h.entered_le_holds hbefore
    rw [← h.writeEnds, ← h.writeOpened, hnone, hseen] at hle
    exact Nat.le_zero.mp hle
  · have hwait := hopened hpc
    have hsome := (s.fifo.awaited_eq_none_iff .read).mp hwait
    rw [PipeEnd.other] at hsome
    have hle : total WriterPc.holds s.writers ≤ total WriterPc.entered s.writers :=
      total_mono fun w _ => holds_le_entered w.pc
    rw [← h.writeEnds, ← h.writeOpened] at hle
    exact Nat.lt_of_lt_of_le (Nat.pos_of_ne_zero hsome) hle
  · have hok := h.writers w hw
    exact ⟨hok.inRange, hok.awaited, fun _ => hafter, hok.printed⟩

/-- A step of the reader that leaves the pipe alone. -/
theorem Accounted.move
    (h : Accounted m s)
    {pc : ReaderPc}
    {ch : Buffer UInt8 1}
    {chunks : List (List UInt8)}
    {printed : List UInt8}
    (hentered : pc.entered = s.reader.entered)
    (hopened : pc.Opened → 0 < s.fifo.opened .write)
    (hopening : ∀ seen, pc ≠ .opening seen)
    (hchunks : chunks.flatten = s.received.flatten) :
    Accounted m
      { s with reader := pc, ch := ch, received := chunks, printed := printed } where
  length := h.length
  readEnds := by rw [h.readEnds, hentered]
  readOpened := by rw [h.readOpened, hentered]
  writeEnds := h.writeEnds
  writeOpened := h.writeOpened
  stream := by
    dsimp only
    rw [hchunks]
    exact h.stream
  awaited seen hseen := absurd hseen (hopening seen)
  opened := hopened
  writers w hw := by
    dsimp only
    rw [hentered]
    exact h.writers w hw

theorem Accounted.readerRead
    (h : Accounted m s)
    (hpc : s.reader = .read)
    (hnext : readerRead s = some t) :
    Accounted m t := by
  have hopened : 0 < s.fifo.opened .write := h.opened (by rw [hpc]; trivial)
  cases hbuffered : s.fifo.pipe.buffered with
  | nil =>
      rw [FifoReaderWriter.readerRead, Pipe.readOne_nil hbuffered] at hnext
      split_ifs at hnext with hends
      cases hnext
      exact h.move (by rw [hpc]; rfl) (fun _ => hopened) (by simp) (by simp)
  | cons x rest =>
      obtain ⟨pipe, hread, hrest, hends⟩ := Pipe.readOne_cons hbuffered
      rw [FifoReaderWriter.readerRead, hread] at hnext
      cases hnext
      refine
        { length := h.length
          readEnds := by rw [hends, h.readEnds, hpc]; rfl
          readOpened := by rw [h.readOpened, hpc]; rfl
          writeEnds := by rw [hends]; exact h.writeEnds
          writeOpened := h.writeOpened
          stream := ?_
          awaited := fun seen hseen => by cases hseen
          opened := fun _ => hopened
          writers := fun w hw => ?_ }
      · dsimp only
        rw [← h.stream, hrest, hbuffered]
        simp
      · have hok := h.writers w hw
        rw [hpc] at hok
        exact hok

theorem Accounted.readerNext
    (h : Accounted m s)
    (hnext : readerNext s fails = some t) :
    Accounted m t := by
  cases hpc : s.reader with
  | openFifo =>
      simp only [FifoReaderWriter.readerNext, hpc] at hnext
      split_ifs at hnext with hfails
      · cases hnext
        exact h.move (by rw [hpc]; rfl) (fun hopened => hopened.elim) (by simp) rfl
      · cases hwait : s.fifo.awaited .read with
        | none =>
            rw [hwait] at hnext
            cases hnext
            exact h.enter (by rw [hpc]; rfl) rfl (by simp) (fun _ => hwait)
        | some seen =>
            rw [hwait] at hnext
            cases hnext
            refine h.enter (by rw [hpc]; rfl) rfl ?_ (fun hopened => hopened.elim)
            rintro seen' heq
            cases heq
            exact hwait
  | opening seen =>
      simp only [FifoReaderWriter.readerNext, hpc] at hnext
      split_ifs at hnext with hpartner
      cases hnext
      have hseen := h.awaited seen hpc
      rw [NamedPipe.PartnerCame, PipeEnd.other, hseen] at hpartner
      exact h.move (by rw [hpc]; rfl) (fun _ => Nat.pos_of_ne_zero hpartner) (by simp) rfl
  | read =>
      simp only [FifoReaderWriter.readerNext, hpc] at hnext
      exact h.readerRead hpc hnext
  | print =>
      simp only [FifoReaderWriter.readerNext, hpc, Option.some.injEq] at hnext
      subst hnext
      exact h.move (by rw [hpc]; rfl) (fun _ => h.opened (by rw [hpc]; trivial)) (by simp) rfl
  | sleep =>
      simp only [FifoReaderWriter.readerNext, hpc, Option.some.injEq] at hnext
      subst hnext
      exact h.move (by rw [hpc]; rfl) (fun _ => h.opened (by rw [hpc]; trivial)) (by simp) rfl
  | exited status =>
      simp [FifoReaderWriter.readerNext, hpc] at hnext

theorem Accounted.next
    (h : Accounted m s)
    {label : Label}
    (hnext : next s label = some t) :
    Accounted m t := by
  cases label with
  | reader fails =>
      exact h.readerNext hnext
  | writer i fails =>
      simp only [FifoReaderWriter.next] at hnext
      cases hi : s.writers[i]? with
      | none =>
          simp [hi] at hnext
      | some w =>
          rw [hi] at hnext
          obtain ⟨⟨fifo', w'⟩, hstep, rfl⟩ := Option.map_eq_some_iff.mp hnext
          exact h.writer hi hstep

theorem accounted_reachable
    {created : Bool}
    {ch : Buffer UInt8 1}
    (h : (system C m created ch).Reachable s) :
    Accounted m s := by
  refine h.invariant ?_ ?_
  · rintro s rfl
    exact accounted_start C m created ch
  · rintro s label t hs ⟨-, hnext⟩
    exact hs.next hnext

end Invariant

end Accounts

section Text

variable {C m : Nat} {created : Bool} {ch₀ : Buffer UInt8 1} {s t : State C} {fails : Bool}

/-- Writers that hold no end any more have written all of their messages. -/
theorem Accounted.writes_of_closed
    (h : Accounted m s)
    (hclosed : s.fifo.pipe.openEnds .write = 0) :
    total WriterPc.writes s.writers = 10 * s.fifo.opened .write := by
  rw [h.writeEnds] at hclosed
  rw [h.writeOpened, total, total, ← List.sum_map_mul_left]
  congr 1
  refine List.map_congr_left fun w hw => ?_
  have hholds : w.pc.holds = 0 := by
    have hle := le_total WriterPc.holds hw
    omega
  have hrange := (h.writers w hw).inRange
  cases hpc : w.pc with
  | exited status =>
      cases status <;> rfl
  | killed =>
      rw [hpc] at hrange
      exact hrange.elim
  | _ =>
      rw [hpc] at hholds
      first
        | rfl
        | cases hholds

/-- The character that has been read and not yet been printed. -/
def pending
    (s : State C) :
    List UInt8 :=
  if s.reader = .print then s.ch.contents else []

/-- The reader prints a snapshot of `ch` for every read, and reads past the bytes of
the writers only between whole writers. -/
structure Prints
    (ch₀ : Buffer UInt8 1)
    (s : State C) :
    Prop where
  fits : ∀ chunk ∈ s.received, chunk.length ≤ 1
  buffer : s.ch = ch₀.after s.received
  output : s.printed ++ pending s = (ch₀.snapshots s.received).flatten
  ended : ∀ before after, s.received = before ++ [] :: after →
    ∃ k, 0 < k ∧ before.flatten = (List.replicate (10 * k) message).flatten

/-- A step that neither reads nor prints. -/
theorem Prints.keep
    (h : Prints ch₀ s)
    (hs : s.reader ≠ .print)
    (ht : t.reader ≠ .print)
    (hch : t.ch = s.ch)
    (hreceived : t.received = s.received)
    (hprinted : t.printed = s.printed) :
    Prints ch₀ t where
  fits := by
    rw [hreceived]
    exact h.fits
  buffer := by
    rw [hreceived, hch]
    exact h.buffer
  output := by
    have houtput := h.output
    rw [pending, if_neg hs] at houtput
    rw [pending, if_neg ht, hreceived, hprinted]
    exact houtput
  ended := by
    rw [hreceived]
    exact h.ended

/-- A read that has stored `chunk`, which is empty only at the end of the file. -/
theorem Prints.read
    (h : Prints ch₀ s)
    (hs : s.reader ≠ .print)
    {fifo : NamedPipe UInt8 C}
    {chunk : List UInt8}
    (hchunk : chunk.length ≤ 1)
    (hended : chunk = [] →
      ∃ k, 0 < k ∧ s.received.flatten = (List.replicate (10 * k) message).flatten) :
    Prints ch₀
      { s with
        fifo := fifo
        ch := s.ch.overwrite chunk
        received := s.received ++ [chunk]
        reader := .print } where
  fits := by
    intro c hc
    rcases List.mem_append.mp hc with hold | hnew
    · exact h.fits c hold
    · rw [List.mem_singleton.mp hnew]
      exact hchunk
  buffer := by
    dsimp only
    rw [Buffer.after_append_singleton, h.buffer]
  output := by
    have houtput := h.output
    rw [pending, if_neg hs, List.append_nil] at houtput
    rw [pending, if_pos rfl]
    dsimp only
    rw [Buffer.snapshots_append_singleton, List.flatten_append, ← houtput, ← h.buffer,
      List.flatten_singleton]
  ended := by
    intro before after hsplit
    rcases List.eq_nil_or_concat' after with rfl | ⟨rest, last, rfl⟩
    · obtain ⟨hbefore, hlast⟩ := List.append_inj' hsplit rfl
      rw [← hbefore]
      exact hended (List.singleton_inj.mp hlast)
    · rw [← List.cons_append, ← List.append_assoc] at hsplit
      obtain ⟨hbefore, -⟩ := List.append_inj' hsplit rfl
      exact h.ended before rest hbefore

theorem Prints.readerRead
    (h : Prints ch₀ s)
    (haccounted : Accounted m s)
    (hpc : s.reader = .read)
    (hnext : readerRead s = some t) :
    Prints ch₀ t := by
  have hs : s.reader ≠ .print := by
    rw [hpc]
    exact ReaderPc.noConfusion
  cases hbuffered : s.fifo.pipe.buffered with
  | nil =>
      rw [FifoReaderWriter.readerRead, Pipe.readOne_nil hbuffered] at hnext
      split_ifs at hnext with hends
      cases hnext
      refine h.read hs (Nat.zero_le 1) fun _ => ⟨s.fifo.opened .write, ?_, ?_⟩
      · exact haccounted.opened (by rw [hpc]; trivial)
      · rw [← haccounted.writes_of_closed hends, ← haccounted.stream, hbuffered,
          List.append_nil]
  | cons x rest =>
      obtain ⟨pipe, hread, -, -⟩ := Pipe.readOne_cons hbuffered
      rw [FifoReaderWriter.readerRead, hread] at hnext
      cases hnext
      exact h.read hs (Nat.le_refl 1) (by simp)

theorem Prints.readerNext
    (h : Prints ch₀ s)
    (haccounted : Accounted m s)
    (hnext : readerNext s fails = some t) :
    Prints ch₀ t := by
  cases hpc : s.reader with
  | openFifo =>
      simp only [FifoReaderWriter.readerNext, hpc] at hnext
      split_ifs at hnext with hfails
      · cases hnext
        exact h.keep (by simp [hpc]) (by simp) rfl rfl rfl
      · cases hwait : s.fifo.awaited .read <;>
        · rw [hwait] at hnext
          cases hnext
          exact h.keep (by simp [hpc]) (by simp) rfl rfl rfl
  | opening seen =>
      simp only [FifoReaderWriter.readerNext, hpc] at hnext
      split_ifs at hnext
      cases hnext
      exact h.keep (by simp [hpc]) (by simp) rfl rfl rfl
  | read =>
      simp only [FifoReaderWriter.readerNext, hpc] at hnext
      exact h.readerRead haccounted hpc hnext
  | print =>
      simp only [FifoReaderWriter.readerNext, hpc, Option.some.injEq] at hnext
      subst hnext
      have houtput := h.output
      rw [pending, if_pos hpc] at houtput
      exact ⟨h.fits, h.buffer, by rw [pending, if_neg (by simp), List.append_nil]; exact houtput,
        h.ended⟩
  | sleep =>
      simp only [FifoReaderWriter.readerNext, hpc, Option.some.injEq] at hnext
      subst hnext
      exact h.keep (by simp [hpc]) (by simp) rfl rfl rfl
  | exited status =>
      simp [FifoReaderWriter.readerNext, hpc] at hnext

theorem length_messages
    (k : Nat) :
    (List.replicate k message).flatten.length = 3 * k := by
  simp [message, Nat.mul_comm]

/-- A byte in `ch` before the first read. -/
def someCh : Buffer UInt8 1 where
  contents := [0]
  size_eq := rfl

/-- A writer waits in `open` until the reader comes. -/
def meeting : List Label :=
  [.writer 0 false, .writer 0 false, .reader false, .writer 0 false, .writer 0 false,
    .writer 0 false]

/-- A message is written, and the reader prints its three characters. -/
def oneMessage : List Label :=
  List.replicate 3 (.writer 0 false) ++ List.replicate 9 (.reader false)

end Text

end FifoReaderWriter
end DupPipe
end OsSeminars
