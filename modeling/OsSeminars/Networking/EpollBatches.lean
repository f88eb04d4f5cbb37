import OsSeminars.Networking.EpollEntries

/-!
# `epoll-read-fds-vector.c`: the events of one batch

The inner loop is to process the events that `epoll_wait` has just stored, and
no others. Its bound is the value that `epoll_wait` returned, an `int`, compared
with an index of type `size_t`.

For a successful wait the bound is the number of stored events. A wait that is
interrupted by a signal returns `-1`, which the comparison turns into the largest
`size_t`: the loop then processes what is left over in `pending` from earlier
batches, or null pointers, and goes on past the end of the array.
-/

namespace OsSeminars
namespace Networking
namespace EpollReadFdsVector

open Foundation

/-- Besides what it does otherwise, `epoll_wait` may fail; it stores nothing then. -/
def InterruptibleContract
    (c : Call)
    (s : State c.N) :
    Label c.N → Prop
  | .epollWait n ready =>
      (n = -1 ∧ ready = []) ∨ KernelContract c s (.epollWait n ready)
  | a => KernelContract c s a

instance (c : Call) (s : State c.N) :
    (a : Label c.N) → Decidable (InterruptibleContract c s a)
  | .epollWait n ready =>
      inferInstanceAs
        (Decidable ((n = -1 ∧ ready = []) ∨ KernelContract c s (.epollWait n ready)))
  | .event cnt => inferInstanceAs (Decidable (KernelContract c s (.event cnt)))
  | .innerExit => inferInstanceAs (Decidable (KernelContract c s .innerExit))
  | .outerExit => inferInstanceAs (Decidable (KernelContract c s .outerExit))

/-- The label is not a failed wait. -/
def NotInterrupted
    {N : Nat} :
    Label N → Prop
  | .epollWait n _ => n ≠ -1
  | _ => True

/-- History of the present batch: the events that `epoll_wait` stored, the
indices of `pending` that were read since, and what stood there. -/
structure Batch (N : Nat) where
  filled : List (EpollEvent N)
  reads : List Nat
  passed : List (EpollEvent N)

/-- No event has been stored or processed yet. -/
def Batch.empty
    (N : Nat) :
    Batch N :=
  { filled := [], reads := [], passed := [] }

def recordBatch
    {N : Nat}
    (s : State N) :
    Label N → Batch N → Batch N
  | .epollWait _ ready, _ => { filled := ready, reads := [], passed := [] }
  | .event _, b =>
      match s.pc with
      | .inner _ i =>
          { b with reads := b.reads ++ [i], passed := b.passed ++ [s.pending i] }
      | _ => b
  | _, b => b

/-- `read_data_and_count` with the history of the present batch. -/
def systemWithBatch
    (c : Call)
    (contract : State c.N → Label c.N → Prop) :
    TransitionSystem (State c.N × Batch c.N) (Label c.N) :=
  (system c contract).withHistory (Batch.empty c.N) recordBatch

/-- The steps of the inner loop. -/
def InInnerLoop
    {N : Nat} :
    Label N → Prop
  | .event _ => True
  | .innerExit => True
  | _ => False

/-- The inner loop that follows a call of `epoll_wait`. -/
def innerLoop
    (c : Call)
    (t : State c.N)
    (b : Batch c.N) :
    TransitionSystem (State c.N × Batch c.N) (Label c.N) :=
  (TransitionSystem.ofProgram (fun s => s = t)
    (fun s a => InterruptibleContract c s a ∧ InInnerLoop a) next).withHistory
      b recordBatch

/-- Only the events of the batch have been processed, in order and without an
index outside the array; and all of them when the inner loop is left. -/
structure PassesFilled
    {N : Nat}
    (s : State N)
    (b : Batch N) :
    Prop where
  passed_isPrefix : b.passed <+: b.filled
  reads_inside : ∀ i ∈ b.reads, i < maxEvents
  complete : (∀ n i, s.pc ≠ .inner n i) → b.passed = b.filled

/-- In a batch of a successful wait the index counts the processed events. -/
structure BatchInv
    {N : Nat}
    (s : State N)
    (b : Batch N) :
    Prop where
  fits : b.filled.length ≤ maxEvents
  pointers : ∀ ev ∈ b.filled, ev.dataPtr.isSome
  stored : ∀ j, j < b.filled.length → b.filled[j]? = some (s.pending j)
  inside : ∀ n i, s.pc = .inner n i →
    n = b.filled.length ∧ i ≤ b.filled.length ∧
      b.reads = List.range i ∧ b.passed = b.filled.take i
  outside : (∀ n i, s.pc ≠ .inner n i) →
    b.reads = List.range b.filled.length ∧ b.passed = b.filled

section Batches

variable {c : Call} {s t : State c.N} {b : Batch c.N}

theorem BatchInv.passesFilled
    (h : BatchInv s b) :
    PassesFilled s b := by
  have hfits := h.fits
  by_cases hpc : ∃ n i, s.pc = .inner n i
  · obtain ⟨n, i, hpc⟩ := hpc
    obtain ⟨-, hi, hreads, hpassed⟩ := h.inside n i hpc
    refine ⟨?_, fun j hj => ?_, fun hout => absurd hpc (hout n i)⟩
    · rw [hpassed]
      exact List.take_prefix i b.filled
    · rw [hreads, List.mem_range] at hj
      omega
  · have hout : ∀ n i, s.pc ≠ .inner n i := fun n i h => hpc ⟨n, i, h⟩
    obtain ⟨hreads, hpassed⟩ := h.outside hout
    refine ⟨?_, fun j hj => ?_, fun _ => hpassed⟩
    · exact hpassed ▸ List.prefix_refl b.filled
    · rw [hreads, List.mem_range] at hj
      omega

theorem batchInv_start
    (c : Call) :
    BatchInv c.start (Batch.empty c.N) where
  fits := Nat.zero_le _
  pointers := fun ev hev => by cases hev
  stored := fun j hj => absurd hj (Nat.not_lt_zero j)
  inside := fun n i h => by cases h
  outside := fun _ => ⟨rfl, rfl⟩

/-- A successful wait starts a batch. -/
theorem batchInv_wait
    {n : Int}
    {ready : List (EpollEvent c.N)}
    (hwait : KernelContract c s (.epollWait n ready)) :
    BatchInv
      { s with
        pending := storeEvents s.pending ready
        pc := .inner n 0 }
      { filled := ready, reads := [], passed := [] } where
  fits := hwait.2.1
  pointers := hwait.2.2
  stored := fun j hj => by simp [storeEvents, List.getElem?_eq_getElem hj]
  inside := fun m i h => by
    cases h
    exact ⟨hwait.1, Nat.zero_le _, rfl, rfl⟩
  outside := fun h => absurd rfl (h n 0)

/-- In such a batch the loop bound is the number of stored events. -/
theorem BatchInv.bound
    {n : Int}
    {i : Nat}
    (h : BatchInv s b)
    (hpc : s.pc = .inner n i) :
    toSizeT n = b.filled.length := by
  have hfits := h.fits
  rw [(h.inside n i hpc).1]
  refine toSizeT_of_lt ?_
  simp only [sizeMod, maxEvents] at *
  omega

/-- The events of the batch are processed one after another. -/
theorem batchInv_afterEvent
    {n cnt : Int}
    {i : Nat}
    (e : Fin c.N)
    (h : BatchInv s b)
    (hpc : s.pc = .inner n i)
    (hi : i < toSizeT n) :
    BatchInv (afterEvent s n i e cnt)
      { b with reads := b.reads ++ [i], passed := b.passed ++ [s.pending i] } := by
  rw [h.bound hpc] at hi
  obtain ⟨hn, -, hreads, hpassed⟩ := h.inside n i hpc
  refine
    { fits := h.fits
      pointers := h.pointers
      stored := h.stored
      inside := fun m j hm => ?_
      outside := fun hout => absurd rfl (hout n (i + 1)) }
  cases hm
  refine ⟨hn, hi, ?_, ?_⟩
  · rw [hreads, List.range_succ]
  · have hlast : b.filled[i]? = some (s.pending i) := h.stored i hi
    rw [hpassed, List.take_add_one, hlast]
    rfl

/-- An event of the batch has a pointer, and its index is inside the array. -/
theorem BatchInv.entryInProcess_ne_none
    {n : Int}
    {i : Nat}
    (h : BatchInv s b)
    (hpc : s.pc = .inner n i)
    (hi : i < toSizeT n) :
    entryInProcess s ≠ none := by
  have hlt := hi
  rw [h.bound hpc] at hlt
  have hmax : i < maxEvents := Nat.lt_of_lt_of_le hlt h.fits
  have hsome := h.pointers _ (List.mem_of_getElem? (h.stored i hlt))
  intro hnone
  have hptr : (s.pending i).dataPtr = none := by
    simpa [entryInProcess, hpc, hi, hmax] using hnone
  rw [hptr] at hsome
  cases hsome

/-- The inner loop is left behind the last event of the batch. -/
theorem batchInv_innerExit
    {n : Int}
    {i : Nat}
    (h : BatchInv s b)
    (hpc : s.pc = .inner n i)
    (hi : ¬ i < toSizeT n) :
    BatchInv { s with pc := .loopHead } b := by
  obtain ⟨-, hle, hreads, hpassed⟩ := h.inside n i hpc
  rw [h.bound hpc] at hi
  have hend : i = b.filled.length := by
    omega
  refine
    { fits := h.fits
      pointers := h.pointers
      stored := h.stored
      inside := fun m j hm => by cases hm
      outside := fun _ => ⟨hend ▸ hreads, ?_⟩ }
  rw [hpassed, hend, List.take_length]

theorem batchInv_outerExit
    {result : Nat}
    (h : BatchInv s b)
    (hpc : s.pc = .loopHead) :
    BatchInv { s with pc := .returned result } b := by
  refine
    { fits := h.fits
      pointers := h.pointers
      stored := h.stored
      inside := fun m j hm => by cases hm
      outside := fun _ => h.outside (fun n i hin => ?_) }
  rw [hpc] at hin
  cases hin

theorem batchInv_step
    {a : Label c.N}
    (h : BatchInv s b)
    (hallowed : InterruptibleContract c s a)
    (hnot : NotInterrupted a)
    (hnext : next s a = some t) :
    BatchInv t (recordBatch s a b) := by
  rcases next_cases hnext with
    ⟨n, ready, rfl, -, -, rfl⟩ |
    ⟨cnt, n, i, e, rfl, hpc, hi, -, -, rfl⟩ |
    ⟨cnt, rfl, hnone, -⟩ |
    ⟨n, i, rfl, hpc, hi, rfl⟩ |
    ⟨rfl, hpc, -, rfl⟩
  · rcases hallowed with hfailed | hwait
    · exact absurd hfailed.1 hnot
    · exact batchInv_wait hwait
  · simp only [recordBatch, hpc]
    exact batchInv_afterEvent e h hpc hi
  · cases hpc : s.pc with
    | inner n i =>
        by_cases hi : i < toSizeT n
        · exact absurd hnone (h.entryInProcess_ne_none hpc hi)
        · simp [next, hpc, hi] at hnext
    | _ => simp [next, hpc] at hnext
  · exact batchInv_innerExit h hpc hi
  · exact batchInv_outerExit h hpc

/-- The inner loop after a successful wait. -/
theorem innerLoop_passesFilled
    (hstart : BatchInv t b)
    {u : State c.N}
    {b' : Batch c.N}
    (h : (innerLoop c t b).Reachable (u, b')) :
    PassesFilled u b' := by
  have hinv : BatchInv u b' := by
    refine h.invariant (I := fun p => BatchInv p.1 p.2) ?_ ?_
    · rintro ⟨u, b'⟩ ⟨rfl, rfl⟩
      exact hstart
    · rintro ⟨u, b'⟩ a ⟨u', b''⟩ hu ⟨⟨⟨hallowed, hinner⟩, hnext⟩, rfl⟩
      have hnot : NotInterrupted a := by
        cases a with
        | epollWait n ready =>
            exact absurd hinner id
        | _ => trivial
      exact batchInv_step hu hallowed hnot hnext
  exact hinv.passesFilled

/-- After a failed wait the loop body runs, on what `pending[0]` held before. -/
theorem failed_wait_passes_stale
    (hpc : t.pc = .inner (-1) 0) :
    ∃ u, (innerLoop c t { filled := [], reads := [], passed := [] }).Reachable
      (u, { filled := [], reads := [0], passed := [t.pending 0] }) := by
  have hbound : 0 < toSizeT (-1) := by
    decide
  have hnext : next t (.event (-1)) = some (innerBody t (-1) 0 (-1)) := by
    simp only [next, hpc, if_pos hbound]
  have hallowed : InterruptibleContract c t (.event (-1)) :=
    fun e _ => Or.inl rfl
  have hinner : InInnerLoop (N := c.N) (.event (-1)) :=
    trivial
  have hstart : (innerLoop c t { filled := [], reads := [], passed := [] }).Reachable
      (t, { filled := [], reads := [], passed := [] }) :=
    .init ⟨rfl, rfl⟩
  refine ⟨innerBody t (-1) 0 (-1),
    hstart.step ⟨⟨⟨hallowed, hinner⟩, hnext⟩, ?_⟩⟩
  simp [recordBatch, hpc]

/-- In a run without a failed wait every batch is the one of a successful wait. -/
theorem passesFilled_of_reachable
    (h : (systemWithBatch c
      (fun s a => InterruptibleContract c s a ∧ NotInterrupted a)).Reachable (s, b)) :
    PassesFilled s b := by
  have hinv : BatchInv s b := by
    refine h.invariant (I := fun p => BatchInv p.1 p.2) ?_ ?_
    · rintro ⟨s, b⟩ ⟨rfl, rfl⟩
      exact batchInv_start c
    · rintro ⟨s, b⟩ a ⟨t, b'⟩ hs ⟨⟨⟨hallowed, hnot⟩, hnext⟩, rfl⟩
      exact batchInv_step hs hallowed hnot hnext
  exact hinv.passesFilled

end Batches

/-- The inner loop that follows a call of `epoll_wait` processes exactly the
events which that call has stored if and only if the call has not failed; and in
every run without a failed wait this holds of all batches. -/
theorem passes_filled_iff_not_interrupted
    (c : Call) :
    (∀ s n ready t,
      (system c (InterruptibleContract c)).step s (.epollWait n ready) t →
      ((∀ u b, (innerLoop c t { filled := ready, reads := [], passed := [] }).Reachable
          (u, b) → PassesFilled u b) ↔
        n ≠ -1)) ∧
    ∀ s b,
      (systemWithBatch c
        (fun s a => InterruptibleContract c s a ∧ NotInterrupted a)).Reachable (s, b) →
      PassesFilled s b := by
  refine ⟨?_, fun s b h => passesFilled_of_reachable h⟩
  rintro s n ready t ⟨hallowed, hnext⟩
  obtain ⟨-, -, ht⟩ := next_epollWait hnext
  constructor
  · rintro hall rfl
    rcases hallowed with ⟨-, rfl⟩ | hwait
    · have hpc : t.pc = .inner (-1) 0 := by
        rw [ht]
      obtain ⟨u, hu⟩ := failed_wait_passes_stale (c := c) hpc
      have hprefix := (hall u _ hu).passed_isPrefix
      simp at hprefix
    · have hlength := hwait.1
      omega
  · intro hnot u b hu
    rcases hallowed with hfailed | hwait
    · exact absurd hfailed.1 hnot
    · have hstart := batchInv_wait hwait
      rw [← ht] at hstart
      exact innerLoop_passesFilled hstart hu

section Interruption

theorem oneFd_injective :
    Function.Injective (fun _ : Fin 1 => (3 : Int)) :=
  fun i j _ => Subsingleton.elim i j

theorem one_lt_sizeMod :
    1 < sizeMod := by
  decide

/-- One descriptor with an empty stream. -/
def oneDescriptor : Call where
  N := 1
  N_lt := one_lt_sizeMod
  fds := ⟨fun _ => 3, oneFd_injective⟩
  stream _ := []

/-- Its entry. -/
def onlyEntry : Fin oneDescriptor.N := ⟨0, by decide⟩

/-- The first wait reports the end of the stream. -/
theorem passes_filled_oneDescriptor :
    ∃ t, (system oneDescriptor (InterruptibleContract oneDescriptor)).step
        oneDescriptor.start (.epollWait 1 [⟨epollIn, some onlyEntry⟩]) t ∧
      (∀ u b, (innerLoop oneDescriptor t
          { filled := [⟨epollIn, some onlyEntry⟩], reads := [], passed := [] }).Reachable
          (u, b) → PassesFilled u b) ∧
      PassesFilled oneDescriptor.start (Batch.empty oneDescriptor.N) := by
  obtain ⟨hcalls, hruns⟩ := passes_filled_iff_not_interrupted oneDescriptor
  have hwait : KernelContract oneDescriptor oneDescriptor.start
      (.epollWait 1 [⟨epollIn, some onlyEntry⟩]) := by
    decide
  have hstep : (system oneDescriptor (InterruptibleContract oneDescriptor)).step
      oneDescriptor.start (.epollWait 1 [⟨epollIn, some onlyEntry⟩])
      { oneDescriptor.start with
        pending := storeEvents oneDescriptor.start.pending
          [⟨epollIn, some onlyEntry⟩]
        pc := .inner 1 0 } :=
    ⟨Or.inr hwait, rfl⟩
  exact ⟨_, hstep, (hcalls _ _ _ _ hstep).mpr (by decide),
    hruns _ _ (.init ⟨rfl, rfl⟩)⟩

/-- A signal interrupts the first wait: the loop body processes `pending[0]`,
which `calloc` has left with a null pointer. -/
theorem not_passes_filled_interrupted :
    ¬ ∀ s b,
      (systemWithBatch oneDescriptor
        (InterruptibleContract oneDescriptor)).Reachable (s, b) →
      PassesFilled s b := by
  intro hall
  have hstart : (systemWithBatch oneDescriptor
      (InterruptibleContract oneDescriptor)).Reachable
      (oneDescriptor.start, Batch.empty oneDescriptor.N) :=
    .init ⟨rfl, rfl⟩
  have hfailed : InterruptibleContract oneDescriptor oneDescriptor.start
      (.epollWait (-1) []) :=
    Or.inl ⟨rfl, rfl⟩
  have hread : InterruptibleContract oneDescriptor
      { oneDescriptor.start with pc := .inner (-1) 0 } (.event (-1)) :=
    fun e _ => Or.inl rfl
  have hinterrupted : (systemWithBatch oneDescriptor
      (InterruptibleContract oneDescriptor)).Reachable
      ({ oneDescriptor.start with pc := .inner (-1) 0 },
        Batch.empty oneDescriptor.N) :=
    hstart.step ⟨⟨hfailed, rfl⟩, rfl⟩
  have hprocessed : (systemWithBatch oneDescriptor
      (InterruptibleContract oneDescriptor)).Reachable
      ({ oneDescriptor.start with pc := .crashed },
        { filled := [], reads := [0], passed := [⟨0, none⟩] }) :=
    hinterrupted.step ⟨⟨hread, rfl⟩, rfl⟩
  have hprefix := (hall _ _ hprocessed).passed_isPrefix
  simp at hprefix

end Interruption

end EpollReadFdsVector
end Networking
end OsSeminars
