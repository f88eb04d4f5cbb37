import Mathlib.Data.List.Basic

/-!
# Foundation: one direction of a connection

A stream carries the bytes of a sender to a receiver in order and without loss. Bytes
that have been sent are on the way, have arrived or have been read. The sender may end
the stream; the receiver learns that behind the last byte. A read takes some of the
bytes that have arrived, and where there are none it reports the end of the stream if
the end has arrived.
-/

namespace OsSeminars
namespace Foundation

structure ByteStream where
  /-- what the receiver has read -/
  taken : List UInt8
  arrived : List UInt8
  flying : List UInt8
  finSent : Bool
  finArrived : Bool

namespace ByteStream

/-- A stream that nothing has been sent on. -/
def empty : ByteStream where
  taken := []
  arrived := []
  flying := []
  finSent := false
  finArrived := false

/-- All bytes that the sender has written. -/
def sent
    (s : ByteStream) :
    List UInt8 :=
  s.taken ++ s.arrived ++ s.flying

/-- `write` of the sender. -/
def send
    (s : ByteStream)
    (bytes : List UInt8) :
    ByteStream :=
  { s with flying := s.flying ++ bytes }

/-- `shutdown` of the sender. -/
def finish
    (s : ByteStream) :
    ByteStream :=
  { s with finSent := true }

/-- Some of the bytes arrive, or behind the last one the end of the stream. -/
def arrive
    (s : ByteStream)
    (count : Nat) :
    Option ByteStream :=
  if s.flying = [] then
    if s.finSent = true ∧ s.finArrived = false then some { s with finArrived := true }
    else none
  else if 1 ≤ count ∧ count ≤ s.flying.length then
    some { s with
      arrived := s.arrived ++ s.flying.take count
      flying := s.flying.drop count }
  else none

/-- What a read returns. -/
inductive ReadResult
  | bytes (chunk : List UInt8)
  | endOfFile
  | wouldBlock
  deriving DecidableEq

/-- `read` of the receiver with a buffer of `size` bytes; `count` bytes are returned if
there are any. -/
def read
    (s : ByteStream)
    (size count : Nat) :
    Option (ReadResult × ByteStream) :=
  if s.arrived = [] then
    if s.finArrived then some (.endOfFile, s) else some (.wouldBlock, s)
  else if 1 ≤ count ∧ count ≤ size ∧ count ≤ s.arrived.length then
    some (.bytes (s.arrived.take count),
      { s with
        taken := s.taken ++ s.arrived.take count
        arrived := s.arrived.drop count })
  else none

/-- The end of the stream arrives behind all of its bytes. -/
def Ordered
    (s : ByteStream) :
    Prop :=
  s.finArrived = true → s.finSent = true ∧ s.flying = []

section Operations

variable {s t : ByteStream} {bytes chunk : List UInt8} {size count : Nat}

theorem ordered_empty :
    empty.Ordered :=
  fun h => by cases h

@[simp] theorem sent_send
    (s : ByteStream)
    (bytes : List UInt8) :
    (s.send bytes).sent = s.sent ++ bytes := by
  simp [sent, send]

theorem taken_send
    (s : ByteStream)
    (bytes : List UInt8) :
    (s.send bytes).taken = s.taken :=
  rfl

theorem taken_finish
    (s : ByteStream) :
    s.finish.taken = s.taken :=
  rfl

@[simp] theorem sent_finish
    (s : ByteStream) :
    s.finish.sent = s.sent :=
  rfl

/-- Nothing is sent any more when the end has arrived. -/
theorem Ordered.send
    (h : s.Ordered)
    (hopen : s.finSent = false) :
    (s.send bytes).Ordered := by
  intro harrived
  have hsent := (h harrived).1
  rw [hopen] at hsent
  cases hsent

theorem Ordered.finish
    (h : s.Ordered) :
    s.finish.Ordered :=
  fun harrived => ⟨rfl, (h harrived).2⟩

/-- What the network does to a stream. -/
theorem arrive_eq_some
    (h : s.arrive count = some t) :
    t.taken = s.taken ∧ t.sent = s.sent ∧ t.finSent = s.finSent := by
  unfold arrive at h
  split_ifs at h with hempty hend hcount
  · cases h
    exact ⟨rfl, rfl, rfl⟩
  · cases h
    refine ⟨rfl, ?_, rfl⟩
    simp [sent]

theorem Ordered.arrive
    (h : s.Ordered)
    (harrive : s.arrive count = some t) :
    t.Ordered := by
  unfold ByteStream.arrive at harrive
  split_ifs at harrive with hempty hend hcount
  · cases harrive
    exact fun _ => ⟨hend.1, hempty⟩
  · cases harrive
    intro harrived
    exact absurd (h harrived).2 hempty

/-- A read that returns bytes. -/
theorem read_bytes
    (h : s.read size count = some (.bytes chunk, t)) :
    chunk ≠ [] ∧ chunk.length ≤ size ∧ t.taken = s.taken ++ chunk ∧ t.sent = s.sent ∧
      t.finSent = s.finSent ∧ t.flying = s.flying ∧ t.finArrived = s.finArrived := by
  have hsome : s.arrived ≠ [] := by
    intro hempty
    rw [read, if_pos hempty] at h
    split_ifs at h <;> cases h
  rw [read, if_neg hsome] at h
  split_ifs at h with hcount
  cases h
  obtain ⟨hpos, hsize, hlength⟩ := hcount
  refine ⟨?_, ?_, rfl, ?_, rfl, rfl, rfl⟩
  · intro hnil
    have hzero := congrArg List.length hnil
    rw [List.length_take, List.length_nil] at hzero
    omega
  · rw [List.length_take]
    omega
  · simp [sent]

/-- A read that returns no bytes leaves the stream as it is. -/
theorem read_of_empty
    (h : s.arrived = []) :
    s.read size count =
      if s.finArrived then some (.endOfFile, s) else some (.wouldBlock, s) := by
  rw [read, if_pos h]

theorem read_endOfFile
    (h : s.read size count = some (.endOfFile, t)) :
    t = s ∧ s.arrived = [] ∧ s.finArrived = true := by
  unfold read at h
  split_ifs at h with hempty hend hcount
  · cases h
    exact ⟨rfl, hempty, hend⟩
  all_goals cases h

theorem read_wouldBlock
    (h : s.read size count = some (.wouldBlock, t)) :
    t = s ∧ s.arrived = [] ∧ s.finArrived = false := by
  unfold read at h
  split_ifs at h with hempty hend hcount
  · cases h
  · cases h
    exact ⟨rfl, hempty, Bool.eq_false_iff.mpr hend⟩
  · cases h

/-- The receiver that is told the end of the stream has read all that was sent. -/
theorem Ordered.taken_eq_sent
    (h : s.Ordered)
    (hread : s.read size count = some (.endOfFile, t)) :
    s.taken = s.sent := by
  obtain ⟨-, hempty, hend⟩ := read_endOfFile hread
  rw [sent, hempty, (h hend).2, List.append_nil, List.append_nil]

theorem taken_isPrefix_sent
    (s : ByteStream) :
    s.taken <+: s.sent :=
  ⟨s.arrived ++ s.flying, by rw [sent, List.append_assoc]⟩

end Operations

end ByteStream

end Foundation
end OsSeminars
