import OsSeminars.Foundation.AnsweredLoop
import OsSeminars.Foundation.MachineInt
import OsSeminars.Foundation.Memory

/-!
# `read-from-stdin.c`: `read_retry`

`read_retry` calls `read` until the buffer is full, the stream ends or a call
fails for good. The results of the calls are a schedule: each call either
transfers a number of the next bytes of the stream or fails with an `errno`.

Whatever the schedule, the cursor stays as far behind the start of the buffer as
bytes have been consumed, and the remaining size is what is left of the
requested one. So the result does not depend on how the stream is cut.
-/

namespace OsSeminars
namespace Files
namespace ReadFromStdin

open Foundation

/-- `EINTR`. -/
def eintr : Nat := 4

/-- `EAGAIN`. -/
def eagain : Nat := 11

/-- The outcome of one `read`. -/
inductive Answer
  | transferred (n : Nat)
  | failed (errno : Nat)
  deriving DecidableEq, Repr

/-- The variables of `read_retry`, with the memory and the position of the file
descriptor in its stream. -/
structure State where
  cdata : Nat
  size : Int
  memory : Memory UInt8
  position : Nat
  errno : Nat

/-- `read(fd, cdata, size)`: the value returned and the state it leaves. -/
def read
    (stream : List UInt8)
    (answer : Answer)
    (s : State) :
    Int × State :=
  match answer with
  | .transferred n =>
      (n, { s with
        memory := s.memory.storeBlock s.cdata ((stream.drop s.position).take n)
        position := s.position + n })
  | .failed errno =>
      (-1, { s with errno := errno })

/-- One iteration of `while (1)`. -/
def iteration
    (stream : List UInt8)
    (data : Nat)
    (answer : Answer)
    (s : State) :
    LoopState State Int :=
  let (result, s) := read stream answer s
  let readBytes := toInt32 result
  if readBytes = 0 then
    .returned (toInt32 (s.cdata - data)) s
  else if readBytes < 0 then
    if s.errno = eagain ∨ s.errno = eintr then
      .running s
    else
      .returned (-1) s
  else
    let s := { s with
      cdata := (s.cdata + readBytes).toNat
      size := s.size - readBytes }
    if s.size = 0 then
      .returned (toInt32 (s.cdata - data)) s
    else
      .running s

/-- The state at the call `read_retry(fd, data, size)`. -/
def start
    (memory : Memory UInt8)
    (errno data : Nat)
    (size : Int) :
    State :=
  { cdata := data, size := size, memory := memory, position := 0, errno := errno }

/-- `read_retry(fd, data, size)` after a number of calls of `read`. -/
def readRetry
    (stream : List UInt8)
    (memory : Memory UInt8)
    (errno data : Nat)
    (size : Int)
    (answers : Nat → Answer) :
    Nat → LoopState State Int :=
  LoopState.after (iteration stream data) answers (start memory errno data size)

/-- A failure after which the call is repeated. -/
def Retried
    (answer : Answer) :
    Prop :=
  answer = .failed eagain ∨ answer = .failed eintr

/-- A failure for good. -/
def FailedForGood
    (answer : Answer) :
    Prop :=
  ∃ errno, answer = .failed errno ∧ errno ≠ eagain ∧ errno ≠ eintr

/-- What `read` may do: it transfers at most the requested number of the next
bytes, and none only when the stream has ended or none was requested. -/
def Possible
    (stream : List UInt8)
    (s : State) :
    Answer → Prop
  | .transferred n =>
      n ≤ toSizeT s.size ∧ s.position + n ≤ stream.length ∧
        (n = 0 → s.position = stream.length ∨ toSizeT s.size = 0)
  | .failed _ => True

theorem possible_transferred
    {stream : List UInt8}
    {s : State}
    {n : Nat} :
    Possible stream s (.transferred n) ↔
      n ≤ toSizeT s.size ∧ s.position + n ≤ stream.length ∧
        (n = 0 → s.position = stream.length ∨ toSizeT s.size = 0) :=
  Iff.rfl

section Iteration

variable {stream : List UInt8} {memory : Memory UInt8} {data n : Nat}
variable {size : Int} {s : State}

/-- The state after `n` bytes have been stored and counted. -/
def advance
    (stream : List UInt8)
    (n : Nat)
    (s : State) :
    State :=
  { s with
    cdata := s.cdata + n
    size := s.size - n
    memory := s.memory.storeBlock s.cdata ((stream.drop s.position).take n)
    position := s.position + n }

theorem iteration_transferred
    (hn : (n : Int) ≤ intMax) :
    iteration stream data (.transferred n) s =
      if n = 0 ∨ (advance stream n s).size = 0 then
        .returned (toInt32 ((advance stream n s).cdata - data)) (advance stream n s)
      else
        .running (advance stream n s) := by
  simp only [iteration, read, toInt32_of_le hn]
  by_cases hzero : n = 0
  · subst hzero
    simp [advance]
  · have hnonneg : ¬ (n : Int) < 0 := by
      omega
    have hcursor : ((s.cdata : Int) + n).toNat = s.cdata + n := by
      omega
    simp [hzero, hnonneg, hcursor, advance]

theorem iteration_failed
    (errno : Nat) :
    iteration stream data (.failed errno) s =
      if errno = eagain ∨ errno = eintr then
        .running { s with errno := errno }
      else
        .returned (-1) { s with errno := errno } := by
  have hminus : toInt32 (-1) = -1 := by
    decide
  simp only [iteration, read, hminus]
  exact (if_neg (by decide)).trans (if_pos (by decide))

/-- A failure for good ends the function with `-1`. -/
theorem iteration_failedForGood
    {answer : Answer}
    (h : FailedForGood answer) :
    ∃ s', iteration stream data answer s = .returned (-1) s' := by
  obtain ⟨errno, rfl, hagain, hintr⟩ := h
  exact ⟨_, by rw [iteration_failed, if_neg (by simp [hagain, hintr])]⟩

/-- The cursor, the remaining size and the buffer belong to the bytes consumed. -/
structure InStep
    (stream : List UInt8)
    (memory : Memory UInt8)
    (data : Nat)
    (size : Int)
    (s : State) :
    Prop where
  cursor : s.cdata = data + s.position
  remaining : s.size = size - s.position
  within : (s.position : Int) ≤ size
  consumed : s.position ≤ stream.length
  written : s.memory = memory.storeBlock data (stream.take s.position)

theorem inStep_start
    (errno : Nat)
    (hsize : 0 ≤ size) :
    InStep stream memory data size (start memory errno data size) where
  cursor := rfl
  remaining := by
    simp [start]
  within := hsize
  consumed := Nat.zero_le _
  written := by
    simp [start]

theorem InStep.errno
    (h : InStep stream memory data size s)
    (errno : Nat) :
    InStep stream memory data size { s with errno := errno } :=
  ⟨h.cursor, h.remaining, h.within, h.consumed, h.written⟩

/-- The remaining size is the number of bytes that is requested. -/
theorem InStep.request
    (h : InStep stream memory data size s)
    (hsize : size ≤ intMax) :
    (toSizeT s.size : Int) = s.size := by
  have hremaining := h.remaining
  have hwithin := h.within
  obtain ⟨n, hn⟩ := Int.eq_ofNat_of_zero_le (a := s.size) (by omega)
  simp only [intMax] at hsize
  rw [hn, toSizeT_of_lt (by simp only [sizeMod]; omega)]

theorem InStep.advance
    (h : InStep stream memory data size s)
    (hsize : size ≤ intMax)
    (hpossible : Possible stream s (.transferred n)) :
    InStep stream memory data size (advance stream n s) := by
  obtain ⟨hrequested, havailable, -⟩ := possible_transferred.mp hpossible
  have hrequest := h.request hsize
  have hcursor := h.cursor
  have hremaining := h.remaining
  have hlength : (stream.take s.position).length = s.position := by
    simpa using h.consumed
  constructor
  · simp only [ReadFromStdin.advance]
    omega
  · simp only [ReadFromStdin.advance]
    omega
  · simp only [ReadFromStdin.advance]
    omega
  · exact havailable
  · simp only [ReadFromStdin.advance]
    rw [h.written, List.take_add, Memory.storeBlock_append, hlength, hcursor]

/-- Behind the bytes consumed nothing is written, and at most `size` bytes are
consumed. -/
theorem InStep.outside
    (h : InStep stream memory data size s)
    {q : Nat}
    (hq : q < data ∨ (data : Int) + size ≤ q) :
    s.memory q = memory q := by
  have hwithin := h.within
  have hlength : (stream.take s.position).length ≤ s.position := by
    simp
  rw [h.written]
  exact Memory.storeBlock_outside (by omega)

/-- The bytes consumed stand at the front of the buffer. -/
theorem InStep.stored
    (h : InStep stream memory data size s)
    {i : Nat}
    {x : UInt8}
    (hi : i < s.position)
    (hx : stream[i]? = some x) :
    s.memory (data + i) = x := by
  obtain ⟨hlen, hget⟩ := List.getElem?_eq_some_iff.mp hx
  have hin : i < (stream.take s.position).length := by
    rw [List.length_take]
    omega
  rw [h.written, Memory.storeBlock_inside hin, List.getElem_take]
  exact hget

theorem InStep.position_le
    (h : InStep stream memory data size s) :
    (s.position : Int) ≤ min size stream.length := by
  have hwithin := h.within
  have hconsumed := h.consumed
  omega

/-- The result of a call that is not ended by a failure. -/
def Complete
    (stream : List UInt8)
    (size r : Int)
    (s : State) :
    Prop :=
  r = s.position ∧ (s.position : Int) = min size stream.length

/-- One iteration keeps the variables in step, and returns either because of a
failure for good or because the buffer is full or the stream has ended. -/
theorem iteration_spec
    {answer : Answer}
    (h : InStep stream memory data size s)
    (hsize : size ≤ intMax)
    (hpossible : Possible stream s answer) :
    (iteration stream data answer s).Holds
      (InStep stream memory data size)
      (fun r s => InStep stream memory data size s ∧
        (FailedForGood answer ∨ Complete stream size r s)) := by
  cases answer with
  | transferred n =>
      have hnext := h.advance hsize hpossible
      have hrequest := h.request hsize
      have hremaining := h.remaining
      have hrequested := (possible_transferred.mp hpossible).1
      have hnone := (possible_transferred.mp hpossible).2.2
      have hn : (n : Int) ≤ intMax := by
        omega
      rw [iteration_transferred hn]
      by_cases hend : n = 0 ∨ (advance stream n s).size = 0
      · rw [if_pos hend]
        refine ⟨hnext, Or.inr ⟨?_, ?_⟩⟩
        · have hposition : ((advance stream n s).position : Int) ≤ intMax :=
            Int.le_trans hnext.within hsize
          have hdistance :
              ((advance stream n s).cdata : Int) - data =
                (advance stream n s).position := by
            rw [hnext.cursor]
            omega
          rw [hdistance]
          exact toInt32_of_le hposition
        · have hwithin := hnext.within
          have hconsumed := hnext.consumed
          simp only [advance] at hend hwithin hconsumed ⊢
          rcases hend with hzero | hfull
          · have hreason := hnone hzero
            omega
          · omega
      · rw [if_neg hend]
        exact hnext
  | failed errno =>
      rw [iteration_failed]
      split_ifs with hretry
      · exact h.errno errno
      · refine ⟨h.errno errno, Or.inl ⟨errno, rfl, ?_⟩⟩
        simpa using hretry

/-- An iteration that is not a retry shrinks the remaining size. -/
theorem iteration_progress
    {answer : Answer}
    {s' : State}
    (h : InStep stream memory data size s)
    (hsize : size ≤ intMax)
    (hpossible : Possible stream s answer)
    (hrunning : iteration stream data answer s = .running s') :
    Retried answer ∨ s'.size.toNat < s.size.toNat := by
  cases answer with
  | transferred n =>
      have hrequest := h.request hsize
      have hremaining := h.remaining
      obtain ⟨hrequested, -, -⟩ := possible_transferred.mp hpossible
      rw [iteration_transferred (by omega)] at hrunning
      split_ifs at hrunning with hend
      cases hrunning
      simp only [advance] at hend ⊢
      right
      omega
  | failed errno =>
      rw [iteration_failed] at hrunning
      split_ifs at hrunning with hretry
      left
      rcases hretry with heq | heq
      · exact Or.inl (congrArg Answer.failed heq)
      · exact Or.inr (congrArg Answer.failed heq)

end Iteration

section Runs

variable {stream : List UInt8} {memory : Memory UInt8} {errno data : Nat}
variable {size : Int} {answers : Nat → Answer}

/-- Every call of `read` that is made has a possible result. -/
def PossibleSchedule
    (stream : List UInt8)
    (memory : Memory UInt8)
    (errno data : Nat)
    (size : Int)
    (answers : Nat → Answer) :
    Prop :=
  ∀ k s, readRetry stream memory errno data size answers k = .running s →
    Possible stream s (answers k)

/-- In step at every moment, whatever the calls return. -/
theorem inStep_after
    (hsize : 0 ≤ size)
    (hmax : size ≤ intMax)
    (hpossible : PossibleSchedule stream memory errno data size answers)
    (k : Nat) :
    (readRetry stream memory errno data size answers k).Holds
      (InStep stream memory data size)
      (fun _ s => InStep stream memory data size s) := by
  refine LoopState.holds_after (inStep_start errno hsize) (fun k s hk hs => ?_) k
  have hspec := iteration_spec hs hmax (hpossible k s hk)
  cases hnext : iteration stream data (answers k) s with
  | running s' =>
      rw [hnext] at hspec
      exact hspec
  | returned r s' =>
      rw [hnext] at hspec
      exact hspec.1

/-- A schedule without failures for good leads to a complete result. -/
theorem complete_after
    (hsize : 0 ≤ size)
    (hmax : size ≤ intMax)
    (hpossible : PossibleSchedule stream memory errno data size answers)
    (hnone : ∀ k s, readRetry stream memory errno data size answers k = .running s →
      ¬ FailedForGood (answers k))
    (k : Nat) :
    (readRetry stream memory errno data size answers k).Holds
      (InStep stream memory data size)
      (fun r s => InStep stream memory data size s ∧ Complete stream size r s) := by
  refine LoopState.holds_after (inStep_start errno hsize) (fun k s hk hs => ?_) k
  have hspec := iteration_spec hs hmax (hpossible k s hk)
  cases hnext : iteration stream data (answers k) s with
  | running s' =>
      rw [hnext] at hspec
      exact hspec
  | returned r s' =>
      rw [hnext] at hspec
      refine ⟨hspec.1, ?_⟩
      rcases hspec.2 with hfailed | hcomplete
      · exact absurd hfailed (hnone k s hk)
      · exact hcomplete

/-- With finitely many retries the function returns. -/
theorem exists_returned
    (hsize : 0 ≤ size)
    (hmax : size ≤ intMax)
    (hpossible : PossibleSchedule stream memory errno data size answers)
    (hretried : {k | Retried (answers k)}.Finite) :
    ∃ k r s, readRetry stream memory errno data size answers k = .returned r s := by
  refine LoopState.exists_returned (fun s => s.size.toNat) hretried ?_
  intro k s s' hk hnext
  have hs := inStep_after hsize hmax hpossible k
  rw [readRetry, hk] at hs
  exact iteration_progress hs hmax (hpossible k s hk) hnext

/-- The state of a call, running or returned. -/
def stateOf :
    LoopState State Int → State
  | .running s => s
  | .returned _ s => s

theorem inStep_stateOf
    (hsize : 0 ≤ size)
    (hmax : size ≤ intMax)
    (hpossible : PossibleSchedule stream memory errno data size answers)
    (k : Nat) :
    InStep stream memory data size
      (stateOf (readRetry stream memory errno data size answers k)) := by
  have hk := inStep_after hsize hmax hpossible k
  cases h : readRetry stream memory errno data size answers k with
  | running s =>
      rw [h] at hk
      exact hk
  | returned r s =>
      rw [h] at hk
      exact hk

/-- `read_retry` returns the length of the longest prefix of the stream that fits
the buffer, with exactly that prefix stored and consumed, for every way the calls
of `read` cut the stream and with finitely many interruptions; a failure for good
met before makes it return `-1`. At no moment has it written outside the buffer
or consumed more than that prefix. -/
theorem readRetry_reads_prefix
    (stream : List UInt8)
    (memory : Memory UInt8)
    (errno data : Nat)
    (size : Int)
    (answers : Nat → Answer)
    (hsize : 0 ≤ size)
    (hmax : size ≤ intMax)
    (hpossible : PossibleSchedule stream memory errno data size answers)
    (hretried : {k | Retried (answers k)}.Finite) :
    (∃ k r s, readRetry stream memory errno data size answers k = .returned r s) ∧
    ((∀ k s, readRetry stream memory errno data size answers k = .running s →
        ¬ FailedForGood (answers k)) →
      ∃ k s, readRetry stream memory errno data size answers k =
          .returned (min size stream.length) s ∧
        (∀ (i : Nat) x, (i : Int) < size → stream[i]? = some x →
          s.memory (data + i) = x) ∧
        (s.position : Int) = min size stream.length) ∧
    (∀ k s, readRetry stream memory errno data size answers k = .running s →
      FailedForGood (answers k) →
        ∃ s', readRetry stream memory errno data size answers (k + 1) =
          .returned (-1) s') ∧
    ∀ k, let s := stateOf (readRetry stream memory errno data size answers k)
      (∀ q, q < data ∨ (data : Int) + size ≤ q → s.memory q = memory q) ∧
      (s.position : Int) ≤ min size stream.length := by
  have hreturns := exists_returned hsize hmax hpossible hretried
  refine ⟨hreturns, fun hnone => ?_, fun k s hk hfailed => ?_, fun k => ?_⟩
  · obtain ⟨k, r, s, hk⟩ := hreturns
    have hfinal := complete_after hsize hmax hpossible hnone k
    rw [hk] at hfinal
    obtain ⟨hstep, hr, hposition⟩ := hfinal
    refine ⟨k, s, by rw [hk, hr, hposition], fun i x hi hx => ?_, hposition⟩
    have hlen := (List.getElem?_eq_some_iff.mp hx).1
    exact hstep.stored (by omega) hx
  · have hreturn : ∃ s', iteration stream data (answers k) s = .returned (-1) s' :=
      iteration_failedForGood hfailed
    obtain ⟨s', hs'⟩ := hreturn
    exact ⟨s', (LoopState.after_succ_of_running hk).trans hs'⟩
  · have hstep := inStep_stateOf hsize hmax hpossible k
    exact ⟨fun q hq => hstep.outside hq, hstep.position_le⟩

/-- An interruption, two bytes at once, and then the end of the stream. -/
def interruptedOnce :
    Nat → Answer
  | 0 => .failed eintr
  | 1 => .transferred 2
  | _ => .transferred 0

theorem interruptedOnce_retried :
    {k | Retried (interruptedOnce k)}.Finite := by
  refine (Set.finite_singleton 0).subset (fun k hk => ?_)
  match k with
  | 0 =>
      rfl
  | 1 =>
      exact absurd hk (by simp [Retried, interruptedOnce])
  | j + 2 =>
      exact absurd hk (by simp [Retried, interruptedOnce])

theorem interruptedOnce_retries
    (k : Nat) :
    ¬ FailedForGood (interruptedOnce k) := by
  match k with
  | 0 =>
      rintro ⟨errno, heq, -, hintr⟩
      cases heq
      exact hintr rfl
  | 1 =>
      simp [FailedForGood, interruptedOnce]
  | j + 2 =>
      simp [FailedForGood, interruptedOnce]

/-- A buffer of four bytes and a stream of two. -/
theorem readRetry_reads_prefix_interruptedOnce :
    ∃ k s, readRetry [104, 105] (fun _ => 0) 0 100 4 interruptedOnce k =
        .returned 2 s ∧
      s.memory 100 = 104 ∧ s.memory 101 = 105 ∧ s.position = 2 := by
  let first := start (fun _ => 0) 0 100 4
  let second : State := { first with errno := eintr }
  let third := advance [104, 105] 2 second
  have h₁ : readRetry [104, 105] (fun _ => 0) 0 100 4 interruptedOnce 1 =
      .running second := by
    have hagain : iteration [104, 105] 100 (.failed eintr) first = .running second := by
      rw [iteration_failed]
      exact if_pos (Or.inr rfl)
    exact hagain
  have h₂ : readRetry [104, 105] (fun _ => 0) 0 100 4 interruptedOnce 2 =
      .running third :=
    (LoopState.after_succ_of_running h₁).trans
      ((iteration_transferred (by decide)).trans (if_neg (by decide)))
  have h₃ : readRetry [104, 105] (fun _ => 0) 0 100 4 interruptedOnce 3 =
      .returned (toInt32 ((advance [104, 105] 0 third).cdata - (100 : Nat)))
        (advance [104, 105] 0 third) :=
    (LoopState.after_succ_of_running h₂).trans
      ((iteration_transferred (by decide)).trans (if_pos (Or.inl rfl)))
  have hpossible :
      PossibleSchedule [104, 105] (fun _ => 0) 0 100 4 interruptedOnce := by
    intro k s hk
    match k with
    | 0 =>
        trivial
    | 1 =>
        rw [h₁] at hk
        cases hk
        exact ⟨by decide, by decide, by decide⟩
    | 2 =>
        rw [h₂] at hk
        cases hk
        exact ⟨by decide, by decide, by decide⟩
    | j + 3 =>
        rw [Nat.add_comm, readRetry, LoopState.after_add_of_returned h₃ j] at hk
        cases hk
  obtain ⟨-, hreads, -, -⟩ :=
    readRetry_reads_prefix [104, 105] (fun _ => 0) 0 100 4 interruptedOnce
      (by decide) (by decide) hpossible interruptedOnce_retried
  obtain ⟨k, s, hk, hbytes, hposition⟩ := hreads (fun k _ _ => interruptedOnce_retries k)
  refine ⟨k, s, hk, hbytes 0 104 (by decide) rfl, hbytes 1 105 (by decide) rfl, ?_⟩
  have hmin : min (4 : Int) ([104, 105] : List UInt8).length = 2 := by
    decide
  omega

end Runs

end ReadFromStdin
end Files
end OsSeminars
