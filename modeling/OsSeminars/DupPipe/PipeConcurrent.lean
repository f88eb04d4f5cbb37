import OsSeminars.Foundation.Buffer
import OsSeminars.Foundation.Pipe
import OsSeminars.Foundation.TransitionSystem

/-!
# `pipe-concurrent.c`: two writers and one reader

Two children fill a pipe with blocks of `BUF_SIZE` equal characters, without an end.
The parent copies what it reads from the pipe to the standard output. It ignores how
many bytes `read` has stored and always writes the whole buffer, so its output is what
it has read only as long as every read returns a full buffer.

A label says which process moves, how many bytes of a write the pipe accepts and how
many bytes a read returns. The writes of the children are longer than `PIPE_BUF`, so
they may be accepted in parts and mixed. Only a signal ends a child. Writes to the
standard output are complete. The texts of `printf`, which go through the buffer of
the library, are kept apart from the bytes that the parent writes itself.
-/

namespace OsSeminars
namespace DupPipe
namespace PipeConcurrent

open Foundation

def BUF_SIZE : Nat := 4096 * 2

/-- The argument `proc_no` of `child_fn`. -/
inductive ProcNo
  | child1
  | child2
  deriving DecidableEq

def ProcNo.toNat : ProcNo → Nat
  | child1 => 1
  | child2 => 2

/-- `memset(buf, '0' + proc_no, BUF_SIZE)`. -/
def buf
    (procNo : ProcNo) :
    List UInt8 :=
  List.replicate BUF_SIZE (UInt8.ofNat ('0'.toNat + procNo.toNat))

/-- A child; `write` holds the bytes of the block not yet accepted. -/
inductive ChildPc
  | closeRead
  | write (rest : List UInt8)
  | terminated
  deriving DecidableEq

/-- The parent; `read` is the loop condition, `write` and `fflush` are the body. -/
inductive ParentPc
  | closeWrite
  | printReading
  | read
  | write
  | fflush
  | printReceived
  | closeRead
  | wait
  | return0
  | exited
  deriving DecidableEq

structure State (C : Nat) where
  pipe : Pipe UInt8 C
  child : ProcNo → ChildPc
  childEnds : ProcNo → PipeEnds
  parent : ParentPc
  parentEnds : PipeEnds
  ch : Buffer UInt8 BUF_SIZE
  /-- what the calls of `read` have returned -/
  received : List (List UInt8)
  /-- what `write` has transferred to `STDOUT_FILENO` -/
  written : List UInt8
  /-- the texts passed to `printf` -/
  messages : List String

/-- Which process moves, and how far its transfer goes. -/
inductive Label
  | child (procNo : ProcNo) (accepted : Nat)
  | kill (procNo : ProcNo)
  | parent (count : Nat)
  deriving DecidableEq

/-- The state after both calls of `fork`; `ch` is not initialised. -/
def afterForks
    (C : Nat)
    (ch : Buffer UInt8 BUF_SIZE) :
    State C where
  pipe := .fresh 3
  child _ := .closeRead
  childEnds _ _ := true
  parent := .closeWrite
  parentEnds _ := true
  ch := ch
  received := []
  written := []
  messages := []

section Steps

variable {C : Nat} (s : State C)

/-- A child is ended by a signal, and its descriptors are closed. -/
def terminate
    (procNo : ProcNo) :
    State C :=
  let r := s.pipe.closeAll (s.childEnds procNo)
  { s with
    pipe := r.1
    childEnds := Function.update s.childEnds procNo r.2
    child := Function.update s.child procNo .terminated }

/-- `write(p->write_fd, buf, BUF_SIZE)` with `rest` still to be accepted. -/
def childWrite
    (procNo : ProcNo)
    (rest : List UInt8)
    (accepted : Nat) :
    Option (State C) :=
  if rest = [] then
    -- the block is accepted, and the loop begins again
    some { s with child := Function.update s.child procNo (.write (buf procNo)) }
  else if s.pipe.openEnds .read = 0 then
    some (terminate s procNo)
  else if 1 ≤ accepted ∧ accepted ≤ rest.length then
    (s.pipe.accept (rest.take accepted)).map fun pipe =>
      { s with
        pipe := pipe
        child := Function.update s.child procNo (.write (rest.drop accepted)) }
  else none

/-- One step of `child_fn(proc_no, &p)`. -/
def childNext
    (procNo : ProcNo)
    (accepted : Nat) :
    Option (State C) :=
  match s.child procNo with
  | .closeRead =>
      let r := s.pipe.close (s.childEnds procNo) .read
      some { s with
        pipe := r.1
        childEnds := Function.update s.childEnds procNo r.2
        child := Function.update s.child procNo (.write (buf procNo)) }
  | .write rest => childWrite s procNo rest accepted
  | .terminated => none

/-- The loop condition `read(p->read_fd, ch, BUF_SIZE) > 0`. -/
def parentRead
    (count : Nat) :
    Option (State C) :=
  if s.pipe.buffered = [] then
    if s.pipe.openEnds .write = 0 then
      some { s with parent := .printReceived }
    else none
  else if 1 ≤ count ∧ count ≤ BUF_SIZE ∧ count ≤ s.pipe.buffered.length then
    let chunk := s.pipe.buffered.take count
    some { s with
      pipe := s.pipe.dropFront count
      ch := s.ch.overwrite chunk
      received := s.received ++ [chunk]
      parent := .write }
  else none

/-- `close` of the parent. -/
def parentClose
    (fd : PipeEnd)
    (pc : ParentPc) :
    State C :=
  let r := s.pipe.close s.parentEnds fd
  { s with pipe := r.1, parentEnds := r.2, parent := pc }

/-- One step of `parent_fn(&p)`. -/
def parentNext
    (count : Nat) :
    Option (State C) :=
  match s.parent with
  | .closeWrite => some (parentClose s .write .printReading)
  | .printReading =>
      some { s with
        messages := s.messages ++ ["parent: reading the message\n"]
        parent := .read }
  | .read => parentRead s count
  | .write =>
      some { s with
        written := s.written ++ s.ch.contents
        parent := .fflush }
  | .fflush => some { s with parent := .read }
  | .printReceived =>
      some { s with
        messages := s.messages ++ ["parent: the message was received\n"]
        parent := .closeRead }
  | .closeRead => some (parentClose s .read .wait)
  | .wait =>
      if s.child .child1 = .terminated ∨ s.child .child2 = .terminated then
        some { s with parent := .return0 }
      else none
  | .return0 =>
      let r := s.pipe.closeAll s.parentEnds
      some { s with pipe := r.1, parentEnds := r.2, parent := .exited }
  | .exited => none

def next :
    Label → Option (State C)
  | .child procNo accepted => childNext s procNo accepted
  | .kill procNo =>
      if s.child procNo = .terminated then none else some (terminate s procNo)
  | .parent count => parentNext s count

end Steps

/-- The three processes and a pipe of capacity `C` after the calls of `fork`. -/
def system
    (C : Nat)
    (ch : Buffer UInt8 BUF_SIZE) :
    TransitionSystem (State C) Label :=
  .ofProgram (fun s => s = afterForks C ch) (fun _ _ => True) next

section Relay

variable {C : Nat} {ch : Buffer UInt8 BUF_SIZE} {s t : State C}

/-- A step of a child changes nothing of the parent. -/
structure SameParent
    (s t : State C) :
    Prop where
  parent : t.parent = s.parent
  ch : t.ch = s.ch
  received : t.received = s.received
  written : t.written = s.written

theorem sameParent_childNext
    {procNo : ProcNo}
    {accepted : Nat}
    (h : childNext s procNo accepted = some t) :
    SameParent s t := by
  cases hpc : s.child procNo with
  | closeRead =>
      simp only [childNext, hpc, Option.some.injEq] at h
      subst h
      exact ⟨rfl, rfl, rfl, rfl⟩
  | write rest =>
      simp only [childNext, hpc, childWrite] at h
      split_ifs at h
      · cases h
        exact ⟨rfl, rfl, rfl, rfl⟩
      · cases h
        exact ⟨rfl, rfl, rfl, rfl⟩
      · obtain ⟨pipe, -, rfl⟩ := Option.map_eq_some_iff.mp h
        exact ⟨rfl, rfl, rfl, rfl⟩
  | terminated =>
      simp [childNext, hpc] at h

/-- What the parent has read and not yet written: its whole buffer. -/
def pending
    (s : State C) :
    List UInt8 :=
  if s.parent = .write then s.ch.contents else []

/-- The parent writes a snapshot of its buffer for every read. -/
structure Relays
    (ch : Buffer UInt8 BUF_SIZE)
    (s : State C) :
    Prop where
  fits : ∀ chunk ∈ s.received, chunk.length ≤ BUF_SIZE
  buffer : s.ch = ch.after s.received
  output : s.written ++ pending s = (ch.snapshots s.received).flatten

theorem relays_afterForks
    (C : Nat)
    (ch : Buffer UInt8 BUF_SIZE) :
    Relays ch (afterForks C ch) where
  fits := fun chunk h => by cases h
  buffer := rfl
  output := rfl

theorem Relays.sameParent
    (h : Relays ch s)
    (hsame : SameParent s t) :
    Relays ch t where
  fits := by
    rw [hsame.received]
    exact h.fits
  buffer := by
    rw [hsame.received, hsame.ch]
    exact h.buffer
  output := by
    rw [pending, hsame.received, hsame.written, hsame.parent, hsame.ch]
    exact h.output

/-- A step of the parent that neither reads nor writes. -/
theorem Relays.keep
    (h : Relays ch s)
    (hs : s.parent ≠ .write)
    (ht : t.parent ≠ .write)
    (hch : t.ch = s.ch)
    (hreceived : t.received = s.received)
    (hwritten : t.written = s.written) :
    Relays ch t where
  fits := by
    rw [hreceived]
    exact h.fits
  buffer := by
    rw [hreceived, hch]
    exact h.buffer
  output := by
    have houtput := h.output
    rw [pending, if_neg hs] at houtput
    rw [pending, if_neg ht, hreceived, hwritten]
    exact houtput

theorem Relays.read
    (h : Relays ch s)
    (hpc : s.parent = .read)
    {count : Nat}
    (hnext : parentRead s count = some t) :
    Relays ch t := by
  have hs : s.parent ≠ .write := by rw [hpc]; decide
  rw [parentRead] at hnext
  split_ifs at hnext with hempty hended hcount
  · cases hnext
    exact h.keep hs (by simp) rfl rfl rfl
  · cases hnext
    refine ⟨fun chunk hchunk => ?_, ?_, ?_⟩
    · rcases List.mem_append.mp hchunk with hold | hnew
      · exact h.fits chunk hold
      · rw [List.mem_singleton.mp hnew, List.length_take]
        omega
    · rw [Buffer.after_append_singleton, h.buffer]
    · have houtput := h.output
      rw [pending, if_neg hs, List.append_nil] at houtput
      rw [Buffer.snapshots_append_singleton, List.flatten_append, ← houtput, ← h.buffer,
        List.flatten_singleton]
      rfl

theorem Relays.parentNext
    (h : Relays ch s)
    {count : Nat}
    (hnext : parentNext s count = some t) :
    Relays ch t := by
  cases hpc : s.parent with
  | read =>
      simp only [PipeConcurrent.parentNext, hpc] at hnext
      exact h.read hpc hnext
  | write =>
      simp only [PipeConcurrent.parentNext, hpc, Option.some.injEq] at hnext
      subst hnext
      have houtput := h.output
      rw [pending, if_pos hpc] at houtput
      refine ⟨h.fits, h.buffer, ?_⟩
      rw [pending, if_neg (by simp), List.append_nil]
      exact houtput
  | wait =>
      simp only [PipeConcurrent.parentNext, hpc] at hnext
      split_ifs at hnext
      cases hnext
      exact h.keep (by simp [hpc]) (by simp) rfl rfl rfl
  | exited =>
      simp [PipeConcurrent.parentNext, hpc] at hnext
  | _ =>
      simp only [PipeConcurrent.parentNext, hpc, parentClose, Option.some.injEq] at hnext
      subst hnext
      exact h.keep (by simp [hpc]) (by simp) rfl rfl rfl

theorem relays_reachable
    (h : (system C ch).Reachable s) :
    Relays ch s := by
  refine h.invariant ?_ ?_
  · rintro s rfl
    exact relays_afterForks C ch
  · rintro s label t hs ⟨-, hnext⟩
    cases label with
    | child procNo accepted =>
        exact hs.sameParent (sameParent_childNext hnext)
    | kill procNo =>
        simp only [next] at hnext
        split_ifs at hnext
        cases hnext
        exact hs.sameParent ⟨rfl, rfl, rfl, rfl⟩
    | parent count =>
        exact hs.parentNext hnext

/-- Between a write and the next read the parent has written exactly what it has read
if and only if every read has filled its buffer. -/
theorem written_eq_received_iff
    (C : Nat)
    (ch : Buffer UInt8 BUF_SIZE)
    (s : State C)
    (h : (system C ch).Reachable s)
    (hpc : s.parent ≠ .write) :
    s.written = s.received.flatten ↔
      ∀ chunk ∈ s.received, chunk.length = BUF_SIZE := by
  have hrelays := relays_reachable h
  have houtput := hrelays.output
  rw [pending, if_neg hpc, List.append_nil] at houtput
  rw [houtput]
  exact Buffer.flatten_snapshots_eq_iff hrelays.fits

/-- A buffer of zeros. -/
def zeros : Buffer UInt8 BUF_SIZE where
  contents := List.replicate BUF_SIZE 0
  size_eq := List.length_replicate

/-- The parent waits for its first read, and the first child has filled its block. -/
def firstBlock
    (C : Nat)
    (ch : Buffer UInt8 BUF_SIZE) :
    State C :=
  let s := parentClose (afterForks C ch) .write .printReading
  let r := s.pipe.close (s.childEnds .child1) .read
  { s with
    messages := ["parent: reading the message\n"]
    parent := .read
    pipe := r.1
    childEnds := Function.update s.childEnds .child1 r.2
    child := Function.update s.child .child1 (.write (buf .child1)) }

theorem reachable_firstBlock
    (C : Nat)
    (ch : Buffer UInt8 BUF_SIZE) :
    (system C ch).Reachable (firstBlock C ch) := by
  have hstart : (system C ch).Reachable (afterForks C ch) := .init rfl
  have hclosed := hstart.step (a := .parent 0) ⟨trivial, rfl⟩
  have hprinted := hclosed.step (a := .parent 0) ⟨trivial, rfl⟩
  exact hprinted.step (a := .child .child1 0) ⟨trivial, rfl⟩

/-- A write of which the pipe accepts the first `n` bytes. -/
theorem exists_childWrite
    {procNo : ProcNo}
    {rest : List UInt8}
    {n : Nat}
    (hopen : s.pipe.openEnds .read ≠ 0)
    (hpos : 1 ≤ n)
    (hle : n ≤ rest.length)
    (hroom : s.pipe.buffered.length + n ≤ C) :
    ∃ t, childWrite s procNo rest n = some t ∧ t.parent = s.parent ∧
      t.received = s.received ∧ t.pipe.buffered = s.pipe.buffered ++ rest.take n := by
  have haccept : (s.pipe.accept (rest.take n)).isSome := by
    rw [Pipe.accept_isSome_iff, List.length_take, Nat.min_eq_left hle]
    exact hroom
  obtain ⟨pipe, hpipe⟩ := Option.isSome_iff_exists.mp haccept
  have hne : rest ≠ [] := by
    rintro rfl
    exact absurd (Nat.le_trans hpos hle) (by decide)
  rw [childWrite, if_neg hne, if_neg hopen, if_pos ⟨hpos, hle⟩, hpipe]
  exact ⟨_, rfl, rfl, rfl, (Pipe.accept_eq_some hpipe).1⟩

/-- A read that returns the first `n` bytes in the pipe. -/
theorem exists_parentRead
    {n : Nat}
    (hpos : 1 ≤ n)
    (hle : n ≤ BUF_SIZE)
    (hbuffered : n ≤ s.pipe.buffered.length) :
    ∃ t, parentRead s n = some t ∧ t.parent = .write ∧
      t.received = s.received ++ [s.pipe.buffered.take n] := by
  have hne : s.pipe.buffered ≠ [] := by
    intro hnil
    rw [hnil] at hbuffered
    exact absurd (Nat.le_trans hpos hbuffered) (by decide)
  rw [parentRead, if_neg hne, if_pos ⟨hpos, hle, hbuffered⟩]
  exact ⟨_, rfl, rfl, rfl⟩

/-- The pipe accepts `n` bytes of the first block, and the parent reads these and writes
its buffer. -/
theorem exists_firstRead
    {n : Nat}
    (hpos : 1 ≤ n)
    (hle : n ≤ BUF_SIZE)
    (hroom : n ≤ C) :
    ∃ s, (system C ch).Reachable s ∧ s.parent = .fflush ∧
      s.received = [List.replicate n 49] := by
  have hblock : (buf .child1).take n = List.replicate n 49 := by
    rw [buf, List.take_replicate, Nat.min_eq_left hle]
    rfl
  have hopen : (firstBlock C ch).pipe.openEnds .read = 2 := rfl
  obtain ⟨s, hwrite, hread, hnone, hbuffered⟩ : ∃ s,
      childWrite (firstBlock C ch) .child1 (buf .child1) n = some s ∧ s.parent = .read ∧
      s.received = [] ∧ s.pipe.buffered = (buf .child1).take n :=
    exists_childWrite (by rw [hopen]; decide) hpos
      (by rw [buf, List.length_replicate]; exact hle)
      (Nat.le_trans (Nat.le_of_eq (Nat.zero_add n)) hroom)
  have hnext : next (firstBlock C ch) (.child .child1 n) = some s := hwrite
  have hwritten := (reachable_firstBlock C ch).step ⟨trivial, hnext⟩
  rw [hblock] at hbuffered
  obtain ⟨t, hstore, hpc, hreceived⟩ :=
    exists_parentRead hpos hle (s := s) (by rw [hbuffered, List.length_replicate])
  have hstored := hwritten.step (a := .parent n)
    ⟨trivial, by rw [← hstore, next, parentNext, hread]⟩
  rw [hnone, hbuffered, List.take_replicate, Nat.min_self, List.nil_append] at hreceived
  have houtput : next t (.parent 0) =
      some { t with written := t.written ++ t.ch.contents, parent := .fflush } := by
    rw [next, parentNext, hpc]
  exact ⟨_, hstored.step ⟨trivial, houtput⟩, rfl, hreceived⟩

theorem written_eq_received_wholeBlock :
    ∃ s, (system 65536 zeros).Reachable s ∧
      s.received = [List.replicate BUF_SIZE 49] ∧ s.written = s.received.flatten := by
  obtain ⟨s, hs, hpc, hreceived⟩ : ∃ s, (system 65536 zeros).Reachable s ∧
      s.parent = .fflush ∧ s.received = [List.replicate BUF_SIZE 49] :=
    exists_firstRead (by decide) (Nat.le_refl _) (by decide)
  have hfull : ∀ chunk ∈ s.received, chunk.length = BUF_SIZE := by
    intro chunk hchunk
    rw [hreceived, List.mem_singleton] at hchunk
    rw [hchunk, List.length_replicate]
  exact ⟨s, hs, hreceived,
    (written_eq_received_iff 65536 zeros s hs (by rw [hpc]; decide)).mpr hfull⟩

/-- A single byte that the parent has read comes out followed by the rest of its
buffer. -/
theorem not_written_eq_received_oneByte :
    ∃ s, (system 65536 zeros).Reachable s ∧ s.parent ≠ .write ∧
      s.received = [[49]] ∧ s.written ≠ s.received.flatten := by
  obtain ⟨s, hs, hpc, hreceived⟩ : ∃ s, (system 65536 zeros).Reachable s ∧
      s.parent = .fflush ∧ s.received = [List.replicate 1 49] :=
    exists_firstRead (by decide) (by decide) (by decide)
  have hnotWrite : s.parent ≠ .write := by
    rw [hpc]
    decide
  refine ⟨s, hs, hnotWrite, hreceived, fun hsame => ?_⟩
  have houtput := congrArg List.length (relays_reachable hs).output
  rw [pending, if_neg hnotWrite, List.append_nil, Buffer.length_flatten_snapshots, hsame,
    hreceived] at houtput
  exact absurd houtput (by decide)

end Relay

end PipeConcurrent
end DupPipe
end OsSeminars
