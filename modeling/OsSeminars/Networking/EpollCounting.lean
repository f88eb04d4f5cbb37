import OsSeminars.Networking.EpollFilesLeft

/-!
# 17-networking/epoll-read-fds-vector.c: counting runs

Under `FirstDeliveryContract` no event is processed for an entry that is done
already, because the events still to be processed in a batch belong to distinct
open descriptors (`BatchFresh`). So `files_left` is exact in these runs, and the
returned value is the number of bytes in all streams.
-/

namespace OsSeminars
namespace Networking
namespace EpollReadFdsVector

open Foundation

section FirstDelivery

variable {c : Call}

/--
The events still to be processed in a batch belong to distinct entries that are
not done, and the batch lies inside `pending`.
-/
structure BatchFresh
    {N : Nat}
    (s : State N) : Prop where
  not_crashed : s.pc ≠ .crashed
  in_pending : ∀ n i, s.pc = .inner n i → toSizeT n ≤ maxEvents
  fresh :
    ∀ n i, s.pc = .inner n i →
      ∀ k, i ≤ k → k < toSizeT n →
        ∃ e,
          (s.pending k).dataPtr = some e ∧
          (s.entries e).done = false ∧
          ∀ k', i ≤ k' → k' < toSizeT n →
            (s.pending k').dataPtr = some e → k' = k

/-- The events of a new batch are fresh. -/
theorem batchFresh_epollWait
    {s : State c.N}
    {n : Int}
    {ready : List (EpollEvent c.N)}
    (hsane : EntriesSane c s)
    (hallowed : FirstDeliveryContract c s (.epollWait n ready)) :
    BatchFresh
      { s with
        pending := storeEvents s.pending ready
        pc := .inner n 0 } := by
  obtain ⟨⟨hn, hlen, hsome⟩, hnodup, hopen⟩ := hallowed
  have hsize : toSizeT n = ready.length := by
    rw [hn]
    refine toSizeT_of_lt (lt_of_le_of_lt hlen ?_)
    decide
  have hstored :
      ∀ k (hk : k < ready.length), storeEvents s.pending ready k = ready[k] := by
    intro k hk
    simp [storeEvents, hk]
  refine ⟨(fun h => by cases h), ?_, ?_⟩
  · intro n' i h
    cases h
    rw [hsize]
    exact hlen
  · intro n' i h k _ hk
    cases h
    rw [hsize] at hk
    have hmem := List.getElem_mem hk
    obtain ⟨e, he⟩ := Option.isSome_iff_exists.mp (hsome _ hmem)
    refine ⟨e, ?_, ?_, ?_⟩
    · dsimp only
      rw [hstored k hk]
      exact he
    · have hclosed := (hopen _ hmem).2 e he
      rw [← hsane.fd_eq e, (hsane.entry e).closed_eq] at hclosed
      exact hclosed
    · intro k' _ hk' he'
      rw [hsize] at hk'
      dsimp only at he'
      rw [hstored k' hk'] at he'
      have hmapped : k < (ready.map EpollEvent.dataPtr).length := by
        simpa using hk
      have hmapped' : k' < (ready.map EpollEvent.dataPtr).length := by
        simpa using hk'
      have hidx :
          (ready.map EpollEvent.dataPtr)[k'] =
            (ready.map EpollEvent.dataPtr)[k] := by
        rw [List.getElem_map, List.getElem_map, he', he]
      exact (hnodup.getElem_inj_iff).mp hidx

/-- Processing one event leaves the rest of the batch fresh. -/
theorem batchFresh_afterEvent
    {s : State c.N}
    {n cnt : Int}
    {i : Nat}
    {e : Fin c.N}
    (hfresh : BatchFresh s)
    (hpc : s.pc = .inner n i)
    (hi : i < toSizeT n)
    (hptr : (s.pending i).dataPtr = some e) :
    BatchFresh (afterEvent s n i e cnt) := by
  refine ⟨(fun h => by cases h), ?_, ?_⟩
  · intro n' i' h
    cases h
    exact hfresh.in_pending n i hpc
  · intro n' i' h k hik hk
    cases h
    obtain ⟨e', he', hopen, huniq⟩ := hfresh.fresh n i hpc k (by omega) hk
    -- a later event of the batch belongs to another entry
    have hne : e' ≠ e := by
      intro heq
      have hk' := huniq i (le_refl i) hi (by rw [hptr, heq])
      omega
    refine ⟨e', he', ?_, ?_⟩
    · rw [afterEvent_entries_of_ne s n i cnt hne]
      exact hopen
    · intro k' hik' hk' hptr'
      exact huniq k' (by omega) hk' hptr'

/-- A fresh batch is processed without touching an entry that is done. -/
theorem notDoneYet_of_batchFresh
    {s : State c.N}
    (hfresh : BatchFresh s)
    (a : Label c.N) :
    NotDoneYet s a := by
  cases a with
  | event cnt =>
      intro e he
      unfold entryInProcess at he
      split at he
      · next n i hpc =>
          split_ifs at he with hi
          swap
          · cases he
          obtain ⟨e', hptr, hopen, -⟩ :=
            hfresh.fresh n i hpc i (le_refl i) hi.1
          rw [hptr] at he
          cases he
          exact hopen
      · cases he
  | epollWait n ready => trivial
  | innerExit => trivial
  | outerExit => trivial

theorem batchFresh_step
    {s t : State c.N}
    {a : Label c.N}
    (hsane : EntriesSane c s)
    (hfresh : BatchFresh s)
    (hallowed : FirstDeliveryContract c s a)
    (hnext : next s a = some t) :
    BatchFresh t := by
  rcases next_cases hnext with
    ⟨n, ready, rfl, -, -, rfl⟩ |
    ⟨cnt, n, i, e, rfl, hpc, hi, hptr, -, rfl⟩ |
    ⟨cnt, rfl, hnone, rfl⟩ |
    ⟨n, i, -, -, -, rfl⟩ |
    ⟨-, -, -, rfl⟩
  · exact batchFresh_epollWait hsane hallowed
  · exact batchFresh_afterEvent hfresh hpc hi hptr
  · -- the event lies inside `pending` and has an entry
    exfalso
    simp only [next] at hnext
    split at hnext
    · next n i hpc =>
        split_ifs at hnext with hi
        have hmax := hfresh.in_pending n i hpc
        obtain ⟨e, hptr, -⟩ := hfresh.fresh n i hpc i (le_refl i) hi
        have hlt : i < maxEvents := lt_of_lt_of_le hi hmax
        simp only [entryInProcess, hpc, hi, hlt, and_self, if_true, hptr] at hnone
        cases hnone
    · cases hnext
  · exact ⟨(fun h => by cases h), (fun _ _ h => by cases h),
      (fun _ _ h => by cases h)⟩
  · exact ⟨(fun h => by cases h), (fun _ _ h => by cases h),
      (fun _ _ h => by cases h)⟩

/-- Under the contract for first deliveries the counter stays exact. -/
theorem filesLeftExact_of_firstDelivery
    {p : State c.N × (Fin c.N → Nat)}
    (h : (systemWithDecrements c (FirstDeliveryContract c)).Reachable p) :
    DecrementsSane c p ∧ FilesLeftExact c p ∧ BatchFresh p.1 := by
  refine h.invariant
    (I := fun p => DecrementsSane c p ∧ FilesLeftExact c p ∧ BatchFresh p.1)
    ?_ ?_
  · rintro ⟨s, decs⟩ ⟨hs, hdecs⟩
    have hstart : s = c.start := hs
    dsimp only at hdecs
    subst hstart hdecs
    exact
      ⟨decrementsSane_start c, filesLeftExact_start c,
        (fun h => by cases h), (fun _ _ h => by cases h),
        (fun _ _ h => by cases h)⟩
  · rintro p a q ⟨hsane, hexact, hfresh⟩ ⟨⟨hallowed, hnext⟩, hrecord⟩
    have hst : (systemWithDecrements c (KernelContract c)).step p a q :=
      ⟨⟨hallowed.1, hnext⟩, hrecord⟩
    exact
      ⟨decrementsSane_step hsane hst,
        (filesLeftExact_step_iff hsane hexact hst).mp
          (notDoneYet_of_batchFresh hfresh a),
        batchFresh_step hsane.sane hfresh hallowed hnext⟩

/-- The entries that are not done. -/
def openEntries
    {N : Nat}
    (s : State N) : Finset (Fin N) :=
  Finset.univ.filter (fun e => (s.entries e).done = false)

/-- An exact counter is the number of entries that are not done. -/
theorem filesLeft_eq_card_openEntries
    {p : State c.N × (Fin c.N → Nat)}
    (hsane : DecrementsSane c p)
    (hexact : FilesLeftExact c p) :
    p.1.filesLeft = (openEntries p.1).card := by
  have hdecs :
      ∀ e, p.2 e = if (p.1.entries e).done = false then 0 else 1 := by
    intro e
    split_ifs with h
    · exact hsane.open_uncounted e h
    · have hge := hsane.done_counted e (Bool.eq_true_of_not_eq_false h)
      have hle := hexact.once e
      omega
  have hopen :
      (openEntries p.1).card =
        ∑ e, if (p.1.entries e).done = false then 1 else 0 := by
    rw [openEntries, Finset.card_filter]
  have htotal : ∑ e, p.2 e + (openEntries p.1).card = c.N := by
    rw [hopen, ← Finset.sum_add_distrib]
    calc
      ∑ e, (p.2 e + if (p.1.entries e).done = false then 1 else 0)
          = ∑ _e : Fin c.N, 1 := by
            refine Finset.sum_congr rfl (fun e _ => ?_)
            rw [hdecs e]
            split_ifs <;> rfl
      _ = c.N := by simp
  have hsum := hexact.no_wrap
  omega

/-- The last loop adds up the counts modulo the size of `size_t`. -/
theorem sumCounts_eq
    {N : Nat}
    (entries : Fin N → DataT) :
    sumCounts entries = (∑ e, (entries e).count) % sizeMod := by
  unfold sumCounts
  have hfold :=
    foldl_add_mod sizeMod (fun i => (entries i).count) (List.finRange N) 0
  rw [Nat.zero_mod] at hfold
  rw [hfold, Nat.zero_add, Fin.sum_univ_def]

/--
`read_data_and_count` when every event is a first delivery: `files_left` is the
number of open entries, every count is the number of bytes read from the stream
of the entry modulo 2^64, and on return all streams were read to their end and
the result is their total length modulo 2^64.
-/
theorem readDataAndCount_counts
    (c : Call)
    {s : State c.N}
    (h : (system c (FirstDeliveryContract c)).Reachable s) :
    s.filesLeft = (openEntries s).card ∧
    (∀ e, (s.entries e).count = s.kernel.pos (c.fds e) % sizeMod) ∧
    (∀ r, s.pc = .returned r →
      (∀ e, s.kernel.pos (c.fds e) = (c.stream (c.fds e)).length) ∧
      r = (∑ e, (c.stream (c.fds e)).length) % sizeMod) := by
  obtain ⟨decs, hdecs⟩ := h.exists_history
  obtain ⟨hsane, hexact, -⟩ := filesLeftExact_of_firstDelivery hdecs
  have hcount : ∀ e, (s.entries e).count = s.kernel.pos (c.fds e) % sizeMod := by
    intro e
    rw [(hsane.sane.entry e).count_eq, hsane.sane.fd_eq e]
  refine ⟨filesLeft_eq_card_openEntries hsane hexact, hcount, ?_⟩
  intro r hr
  have hend : ∀ e, s.kernel.pos (c.fds e) = (c.stream (c.fds e)).length := by
    intro e
    have heof := (hsane.sane.entry e).done_eof (hexact.exit_done r hr e)
    rw [hsane.sane.fd_eq e] at heof
    exact heof
  refine ⟨hend, ?_⟩
  rw [(hsane.sane.result_eq r hr).2, sumCounts_eq, Finset.sum_nat_mod]
  simp only [hcount, Nat.mod_mod, hend]
  rw [← Finset.sum_nat_mod]

/-- The empty stream ends, and then the other one; the ends are reported together with
the hang-up of the writer. -/
def hungUpEvents : List (Label emptyAndOneByte.N) :=
  [.epollWait 2
      [⟨epollIn ||| epollHup, some emptyEntry⟩, ⟨epollIn, some oneByteEntry⟩],
    .event 0, .event 1, .innerExit,
    .epollWait 1 [⟨epollIn ||| epollHup, some oneByteEntry⟩], .event 0, .innerExit,
    .outerExit]

theorem readDataAndCount_counts_hungUpEvents :
    ∃ s : State emptyAndOneByte.N,
      s.pc = .returned 1 ∧
      s.filesLeft = (openEntries s).card ∧
      (∀ e, (s.entries e).count =
        s.kernel.pos (emptyAndOneByte.fds e) % sizeMod) ∧
      (∀ r, s.pc = .returned r →
        (∀ e, s.kernel.pos (emptyAndOneByte.fds e) =
          (emptyAndOneByte.stream (emptyAndOneByte.fds e)).length) ∧
        r = (∑ e, (emptyAndOneByte.stream
          (emptyAndOneByte.fds e)).length) % sizeMod) := by
  have hstart :
      (system emptyAndOneByte
        (FirstDeliveryContract emptyAndOneByte)).Reachable
        emptyAndOneByte.start :=
    .init rfl
  obtain ⟨s, hs, htest⟩ :=
    TransitionSystem.exists_reachable_of_exec hungUpEvents
      (fun s => s.pc = .returned 1) hstart (by decide) (by decide)
  exact ⟨s, of_decide_eq_true htest, readDataAndCount_counts emptyAndOneByte hs⟩

/-- One descriptor whose stream is as long as `size_t` has values. -/
def longStream : Call where
  N := 1
  N_lt := by decide
  fds := ⟨fun _ => 3, fun i j _ => Subsingleton.elim i j⟩
  stream _ := List.replicate sizeMod 0

/-- The only entry. -/
def longEntry : Fin longStream.N := ⟨0, by decide⟩

/-- A run has read `k` full buffers of the stream and is before the next round. -/
structure LongRead
    (k : Nat)
    (s : State longStream.N) : Prop where
  reachable : (system longStream (FirstDeliveryContract longStream)).Reachable s
  pc : s.pc = .loopHead
  left : s.filesLeft = 1
  pos : s.kernel.pos 3 = bufSize * k
  opened : s.kernel.closed 3 = false

/-- The stream has another full buffer. -/
theorem LongRead.readReturns
    {k : Nat}
    {s : State longStream.N}
    (h : LongRead k s)
    (hk : k < 2 ^ 52) :
    ReadReturns longStream s.kernel 3 bufSize := by
  refine Or.inr ⟨h.opened, Or.inl ⟨by decide, le_refl _, ?_⟩⟩
  show ((s.kernel.pos 3 : Nat) : Int) + bufSize ≤
    (List.replicate sizeMod (0 : UInt8)).length
  rw [h.pos, List.length_replicate]
  unfold bufSize sizeMod
  omega

/-- One round: a batch of one event, one full buffer, back to the loop head. -/
theorem LongRead.round
    {k : Nat}
    {s : State longStream.N}
    (h : LongRead k s)
    (hk : k < 2 ^ 52) :
    ∃ t, LongRead (k + 1) t := by
  have hsane := entriesSane_of_reachable (fun _ _ h => h.1) h.reachable
  have hfd : (s.entries longEntry).fd = 3 := hsane.fd_eq longEntry
  have hopen : (s.entries longEntry).done = false := by
    rw [← (hsane.entry longEntry).closed_eq, hfd]
    exact h.opened
  let ready : List (EpollEvent longStream.N) := [⟨epollIn, some longEntry⟩]
  let s₁ : State longStream.N :=
    { s with
      pending := storeEvents s.pending ready
      pc := .inner 1 0 }
  let s₂ := afterEvent s₁ 1 0 longEntry bufSize
  have h₁ : next s (.epollWait 1 ready) = some s₁ := by
    simp only [next, h.pc, h.left, Nat.lt_one_iff, if_true, s₁]
  have h₂ : next s₁ (.event bufSize) = some s₂ := rfl
  have h₃ : next s₂ .innerExit = some { s₂ with pc := .loopHead } := rfl
  have hc₁ : FirstDeliveryContract longStream s (.epollWait 1 ready) := by
    refine ⟨⟨rfl, by decide, by decide⟩, by decide, ?_⟩
    intro ev hev
    rw [List.mem_singleton.mp hev]
    refine ⟨by decide, fun e he => ?_⟩
    cases he
    exact h.opened
  have hc₂ : FirstDeliveryContract longStream s₁ (.event bufSize) := by
    refine ⟨fun e he => ?_, trivial⟩
    cases he
    show ReadReturns longStream s.kernel (s.entries longEntry).fd bufSize
    rw [hfd]
    exact h.readReturns hk
  have hc₃ : FirstDeliveryContract longStream s₂ .innerExit :=
    ⟨trivial, trivial⟩
  have hmask : (s₁.pending 0).events = epollIn := rfl
  have hevent :=
    processEvent_bytes (s.entries longEntry) s.kernel s.filesLeft bufSize
      hopen (by decide)
  rw [← hmask] at hevent
  have hleft₂ : s₂.filesLeft = s.filesLeft :=
    congrArg EventResult.filesLeft hevent
  have hkernel₂ :
      s₂.kernel = s.kernel.read (s.entries longEntry).fd bufSize :=
    congrArg EventResult.kernel hevent
  refine ⟨{ s₂ with pc := .loopHead }, ?_⟩
  constructor
  · exact ((h.reachable.step ⟨hc₁, h₁⟩).step ⟨hc₂, h₂⟩).step ⟨hc₃, h₃⟩
  · rfl
  · exact hleft₂.trans h.left
  · show s₂.kernel.pos 3 = bufSize * (k + 1)
    rw [hkernel₂, hfd, KernelState.read_pos_self, h.pos]
    rfl
  · show s₂.kernel.closed 3 = false
    rw [hkernel₂]
    exact h.opened

theorem exists_longRead
    (k : Nat)
    (hk : k ≤ 2 ^ 52) :
    ∃ s, LongRead k s := by
  induction k with
  | zero =>
      exact ⟨longStream.start, .init rfl, rfl, rfl, rfl, rfl⟩
  | succ k ih =>
      obtain ⟨s, hs⟩ := ih (by omega)
      exact hs.round (by omega)

/-- A stream of 2^64 bytes wraps the count of its entry. -/
theorem count_wraps_longStream :
    ¬ ∀ s,
      (system longStream (FirstDeliveryContract longStream)).Reachable s →
      ∀ e, (s.entries e).count = s.kernel.pos (longStream.fds e) := by
  intro hall
  obtain ⟨s, hs⟩ := exists_longRead (2 ^ 52) (le_refl _)
  have hexact := hall s hs.reachable longEntry
  have hsane := entriesSane_of_reachable (fun _ _ h => h.1) hs.reachable
  have hmod := (hsane.entry longEntry).count_eq
  rw [hsane.fd_eq longEntry] at hmod
  have hfull : s.kernel.pos (longStream.fds longEntry) = sizeMod := by
    show s.kernel.pos 3 = sizeMod
    rw [hs.pos]
    rfl
  rw [hmod, hfull] at hexact
  revert hexact
  decide

end FirstDelivery

end EpollReadFdsVector
end Networking
end OsSeminars
