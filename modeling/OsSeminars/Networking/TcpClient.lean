import OsSeminars.Foundation.AnsweredLoop
import OsSeminars.Foundation.Buffer
import OsSeminars.Foundation.IntBytes
import OsSeminars.Foundation.ScanInt

/-!
# `tcp-client.c`: numbers over a stream

The client scans numbers from its standard input. For each of them it writes four
bytes to the socket, reads at most four bytes into a variable and prints the variable.
The connection is a stream: a read returns some of the next bytes, and a read of fewer
than four leaves the higher bytes of the variable as they were.

What `write` and `read` do in an iteration is the answer of the surroundings. The
steps before the loop, which open the connection, are left out.
-/

namespace OsSeminars
namespace Networking
namespace TcpClient

open Foundation

/-- The result of `write`: a number of bytes accepted, or `-1`. -/
inductive WriteResult
  | accepted (n : Nat)
  | failed
  deriving DecidableEq

/-- The result of `read`: bytes, none at the end of the stream, or `-1`. -/
inductive ReadResult
  | received (bytes : List UInt8)
  | failed
  deriving DecidableEq

/-- What the calls of one iteration do. -/
structure Answer where
  write : WriteResult
  read : ReadResult

structure State where
  /-- the standard input that is not scanned yet -/
  text : List UInt8
  send : BitVec 32
  recv : Buffer UInt8 4
  /-- the bytes accepted by each `write` -/
  sent : List (List UInt8)
  /-- the bytes returned by each `read` -/
  received : List (List UInt8)
  printed : List (BitVec 32)

/-- The loop condition `scanf("%d", &send) != EOF`, with its effect. -/
def scanSend
    (s : State) :
    Option State :=
  match ScanInt.scanInt s.text with
  | .eof => none
  | .noMatch rest => some { s with text := rest }
  | .number value rest => some { s with text := rest, send := BitVec.ofInt 32 value }

/-- `if (write(sock_fd, &send, sizeof(int)) <= 0) break`. -/
def writeSend
    (result : WriteResult)
    (s : State) :
    Option State :=
  match result with
  | .accepted n =>
      if n = 0 then none
      else some { s with sent := s.sent ++ [(intBytes s.send).take n] }
  | .failed => none

/-- `if (read(sock_fd, &recv, sizeof(int)) <= 0) break`. -/
def readRecv
    (result : ReadResult)
    (s : State) :
    Option State :=
  match result with
  | .received bytes =>
      if bytes = [] then none
      else some { s with
        recv := s.recv.overwrite bytes
        received := s.received ++ [bytes] }
  | .failed => none

/-- `printf("%d\n", recv)`. -/
def printRecv
    (s : State) :
    State :=
  { s with printed := s.printed ++ [intOfBytes s.recv.contents] }

/-- One iteration of `while`; every way out of the loop leads to `return 0`. -/
def iteration
    (answer : Answer)
    (s : State) :
    LoopState State Int :=
  match scanSend s with
  | none => .returned 0 s
  | some s =>
      match writeSend answer.write s with
      | none => .returned 0 s
      | some s =>
          match readRecv answer.read s with
          | none => .returned 0 s
          | some s => .running (printRecv s)

/-- The state in front of the loop, with both variables not initialised. -/
def start
    (text : List UInt8)
    (send : BitVec 32)
    (recv : Buffer UInt8 4) :
    State where
  text := text
  send := send
  recv := recv
  sent := []
  received := []
  printed := []

/-- The loop of `main` after a number of iterations. -/
def client
    (text : List UInt8)
    (send : BitVec 32)
    (recv : Buffer UInt8 4)
    (answers : Nat → Answer) :
    Nat → LoopState State Int :=
  LoopState.after iteration answers (start text send recv)

/-- The state of the loop, running or left. -/
def stateOf :
    LoopState State Int → State
  | .running s => s
  | .returned _ s => s

section Printing

variable {text : List UInt8} {send : BitVec 32} {recv : Buffer UInt8 4}
variable {answers : Nat → Answer} {s t : State}

/-- No read returns more bytes than it asks for. -/
def ReadsFit
    (answers : Nat → Answer) :
    Prop :=
  ∀ k bytes, (answers k).read = .received bytes → bytes.length ≤ 4

/-- A snapshot of the variable is printed for every read. -/
structure PrintsSnapshots
    (recv : Buffer UInt8 4)
    (s : State) :
    Prop where
  fits : ∀ chunk ∈ s.received, chunk.length ≤ 4
  buffer : s.recv = recv.after s.received
  printed : s.printed = (recv.snapshots s.received).map intOfBytes

theorem printsSnapshots_start
    (text : List UInt8)
    (send : BitVec 32)
    (recv : Buffer UInt8 4) :
    PrintsSnapshots recv (start text send recv) where
  fits := fun chunk h => by cases h
  buffer := rfl
  printed := rfl

/-- What neither reads nor prints. -/
theorem PrintsSnapshots.keep
    (h : PrintsSnapshots recv s)
    (hrecv : t.recv = s.recv)
    (hreceived : t.received = s.received)
    (hprinted : t.printed = s.printed) :
    PrintsSnapshots recv t where
  fits := by
    rw [hreceived]
    exact h.fits
  buffer := by
    rw [hrecv, hreceived]
    exact h.buffer
  printed := by
    rw [hprinted, hreceived]
    exact h.printed

theorem PrintsSnapshots.scanSend
    (h : PrintsSnapshots recv s)
    (hscan : scanSend s = some t) :
    PrintsSnapshots recv t := by
  cases houtcome : ScanInt.scanInt s.text with
  | eof =>
      simp [TcpClient.scanSend, houtcome] at hscan
  | noMatch rest =>
      simp only [TcpClient.scanSend, houtcome, Option.some.injEq] at hscan
      subst hscan
      exact h.keep rfl rfl rfl
  | number value rest =>
      simp only [TcpClient.scanSend, houtcome, Option.some.injEq] at hscan
      subst hscan
      exact h.keep rfl rfl rfl

theorem PrintsSnapshots.writeSend
    {result : WriteResult}
    (h : PrintsSnapshots recv s)
    (hwrite : writeSend result s = some t) :
    PrintsSnapshots recv t := by
  cases result with
  | failed =>
      cases hwrite
  | accepted n =>
      simp only [TcpClient.writeSend] at hwrite
      split_ifs at hwrite
      cases hwrite
      exact h.keep rfl rfl rfl

theorem PrintsSnapshots.readRecv
    {result : ReadResult}
    (h : PrintsSnapshots recv s)
    (hfits : ∀ bytes, result = .received bytes → bytes.length ≤ 4)
    (hread : readRecv result s = some t) :
    PrintsSnapshots recv (printRecv t) := by
  cases result with
  | failed =>
      cases hread
  | received bytes =>
      simp only [TcpClient.readRecv] at hread
      split_ifs at hread
      cases hread
      refine ⟨fun chunk hchunk => ?_, ?_, ?_⟩
      · rcases List.mem_append.mp hchunk with hold | hnew
        · exact h.fits chunk hold
        · rw [List.mem_singleton.mp hnew]
          exact hfits bytes rfl
      · change s.recv.overwrite bytes = recv.after (s.received ++ [bytes])
        rw [Buffer.after_append_singleton, h.buffer]
      · change s.printed ++ [intOfBytes (s.recv.overwrite bytes).contents] =
          (recv.snapshots (s.received ++ [bytes])).map intOfBytes
        rw [Buffer.snapshots_append_singleton, List.map_append, h.printed, h.buffer]
        rfl

theorem PrintsSnapshots.iteration
    {answer : Answer}
    (h : PrintsSnapshots recv s)
    (hfits : ∀ bytes, answer.read = .received bytes → bytes.length ≤ 4) :
    (iteration answer s).Holds (PrintsSnapshots recv) (fun _ => PrintsSnapshots recv) := by
  rw [TcpClient.iteration]
  cases hscan : TcpClient.scanSend s with
  | none =>
      exact h
  | some s₁ =>
      have h₁ := h.scanSend hscan
      dsimp only
      cases hwrite : TcpClient.writeSend answer.write s₁ with
      | none =>
          exact h₁
      | some s₂ =>
          have h₂ := h₁.writeSend hwrite
          dsimp only
          cases hread : TcpClient.readRecv answer.read s₂ with
          | none =>
              exact h₂
          | some s₃ =>
              exact h₂.readRecv hfits hread

theorem printsSnapshots_client
    (hreads : ReadsFit answers)
    (k : Nat) :
    PrintsSnapshots recv (stateOf (client text send recv answers k)) := by
  have hk : (client text send recv answers k).Holds (PrintsSnapshots recv)
      (fun _ => PrintsSnapshots recv) :=
    LoopState.holds_after (printsSnapshots_start text send recv)
      (fun k s _ hs => hs.iteration (hreads k)) k
  cases h : client text send recv answers k with
  | running s =>
      rw [h] at hk
      exact hk
  | returned r s =>
      rw [h] at hk
      exact hk

/-- The numbers in the snapshots are the first integers exactly when the snapshots are
their bytes. -/
theorem map_snapshots_isPrefix_iff
    {integers : List (BitVec 32)}
    {chunks : List (List UInt8)} :
    (recv.snapshots chunks).map intOfBytes <+: integers ↔
      recv.snapshots chunks <+: integers.map intBytes := by
  constructor
  · intro h
    have hbytes := h.map intBytes
    have hsame : ((recv.snapshots chunks).map intOfBytes).map intBytes =
        recv.snapshots chunks := by
      rw [List.map_map]
      refine (List.map_congr_left fun block hblock => ?_).trans (List.map_id _)
      exact intBytes_intOfBytes (Buffer.length_of_mem_snapshots hblock)
    rwa [hsame] at hbytes
  · intro h
    have hnumbers := h.map intOfBytes
    have hsame : (integers.map intBytes).map intOfBytes = integers := by
      rw [List.map_map]
      exact List.map_id'' intOfBytes_intBytes integers
    rwa [hsame] at hnumbers

/-- The numbers printed are the integers of the stream in their order if and only if
every read returns the beginning of its integer, with the rest of it in the variable
from the integer before. This is the case when every read returns four bytes. -/
theorem printed_in_order_iff
    (text : List UInt8)
    (send : BitVec 32)
    (recv : Buffer UInt8 4)
    (answers : Nat → Answer)
    (integers : List (BitVec 32))
    (k : Nat)
    (s : State)
    (hreads : ReadsFit answers)
    (hs : s = stateOf (client text send recv answers k))
    (hstream : s.received.flatten <+: (integers.map intBytes).flatten) :
    ((∀ (j : Nat) x, s.printed[j]? = some x → integers[j]? = some x) ↔
      Buffer.Coincide recv.contents s.received (integers.map intBytes)) ∧
    ((∀ chunk ∈ s.received, chunk.length = 4) →
      Buffer.Coincide recv.contents s.received (integers.map intBytes)) := by
  have hprints : PrintsSnapshots recv s := by
    rw [hs]
    exact printsSnapshots_client hreads k
  have hblocks : ∀ block ∈ integers.map intBytes, block.length = 4 := by
    intro block hblock
    obtain ⟨x, -, rfl⟩ := List.mem_map.mp hblock
    exact length_intBytes x
  have hbegins : (∀ (j : Nat) x, s.printed[j]? = some x → integers[j]? = some x) ↔
      s.printed <+: integers := by
    rw [List.prefix_iff_getElem?]
    constructor
    · intro h j hj
      exact h j _ (List.getElem?_eq_getElem hj)
    · intro h j x hx
      obtain ⟨hj, rfl⟩ := List.getElem?_eq_some_iff.mp hx
      exact h j hj
  refine ⟨?_, fun hfull => ?_⟩
  · rw [hbegins, hprints.printed, map_snapshots_isPrefix_iff]
    exact Buffer.snapshots_isPrefix_iff hprints.fits hblocks
  · exact Buffer.coincide_of_full (by decide) recv.size_eq hfull hblocks hstream

/-- A variable whose four bytes are zero. -/
def zeroRecv : Buffer UInt8 4 where
  contents := [0, 0, 0, 0]
  size_eq := rfl

/-- Every `write` is accepted and every `read` returns the next chunk. -/
def answersWith
    (chunks : List (List UInt8))
    (k : Nat) :
    Answer where
  write := .accepted 4
  read := .received (chunks.getD k [])

theorem readsFit_answersWith
    {chunks : List (List UInt8)}
    (h : ∀ chunk ∈ chunks, chunk.length ≤ 4) :
    ReadsFit (answersWith chunks) := by
  intro k bytes hbytes
  cases hbytes
  rw [List.getD_eq_getElem?_getD]
  cases hchunk : chunks[k]? with
  | none =>
      exact Nat.zero_le 4
  | some chunk =>
      exact h chunk (List.mem_of_getElem? hchunk)

/-- The client after two requests, `1` and `2`, with these reads. -/
def afterTwo
    (chunks : List (List UInt8)) :
    State :=
  stateOf (client [49, 32, 50] 0 zeroRecv (answersWith chunks) 2)

/-- Two integers, each read at once. -/
theorem printed_in_order_iff_wholeReads :
    (afterTwo [[1, 0, 0, 0], [2, 1, 0, 0]]).printed = [1, 258] ∧
    ∀ (j : Nat) x, (afterTwo [[1, 0, 0, 0], [2, 1, 0, 0]]).printed[j]? = some x →
      ([1, 258] : List (BitVec 32))[j]? = some x := by
  obtain ⟨hiff, hfull⟩ := printed_in_order_iff [49, 32, 50] 0 zeroRecv
    (answersWith [[1, 0, 0, 0], [2, 1, 0, 0]]) [1, 258] 2 _
    (readsFit_answersWith (by decide)) rfl (by decide)
  exact ⟨by decide, hiff.mpr (hfull (by decide))⟩

/-- The first read returns three bytes of an integer. The number printed lacks the
highest byte, and the next one begins with it. -/
theorem not_printed_in_order_shortRead :
    (afterTwo [[1, 2, 3], [4, 5, 6, 7]]).received.flatten <+:
      (([0x04030201, 0x08070605] : List (BitVec 32)).map intBytes).flatten ∧
    (afterTwo [[1, 2, 3], [4, 5, 6, 7]]).printed = [0x00030201, 0x07060504] ∧
    ¬∀ (j : Nat) x, (afterTwo [[1, 2, 3], [4, 5, 6, 7]]).printed[j]? = some x →
      ([0x04030201, 0x08070605] : List (BitVec 32))[j]? = some x := by
  have hprinted : (afterTwo [[1, 2, 3], [4, 5, 6, 7]]).printed =
      [0x00030201, 0x07060504] := by
    decide
  refine ⟨by decide, hprinted, fun h => ?_⟩
  have hfirst := h 0 0x00030201 (by rw [hprinted]; rfl)
  exact absurd hfirst (by decide)

end Printing

end TcpClient
end Networking
end OsSeminars
