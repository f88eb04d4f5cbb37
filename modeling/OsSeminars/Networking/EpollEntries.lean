import OsSeminars.Networking.EpollReadFdsVector

/-!
# 17-networking/epoll-read-fds-vector.c: the entries

The entry of a descriptor and the kernel agree after every read: the count is
the number of bytes read modulo the size of `size_t`, and an entry is done
exactly when its descriptor was closed at the end of its stream. This much
holds under every kernel contract (`EntriesSane`).
-/

namespace OsSeminars
namespace Networking
namespace EpollReadFdsVector

open Foundation

section Entry

/-- An entry agrees with what the kernel knows about its descriptor. -/
structure EntrySane
    (stream : Int → List UInt8)
    (k : KernelState)
    (d : DataT) : Prop where
  count_eq : d.count = k.pos d.fd % sizeMod
  pos_le : k.pos d.fd ≤ (stream d.fd).length
  closed_eq : k.closed d.fd = d.done
  done_eof : d.done = true → k.pos d.fd = (stream d.fd).length

variable (mask : UInt32) (d : DataT) (k : KernelState) (left : Nat) (cnt : Int)

@[simp] theorem KernelState.read_closed
    (fd : Int) :
    (k.read fd cnt).closed = k.closed := by
  rfl

@[simp] theorem KernelState.read_pos_self
    (fd : Int) :
    (k.read fd cnt).pos fd = k.pos fd + cnt.toNat := by
  simp [KernelState.read]

@[simp] theorem KernelState.close_pos
    (fd : Int) :
    (k.close fd).pos = k.pos := by
  rfl

@[simp] theorem KernelState.close_closed_self
    (fd : Int) :
    (k.close fd).closed fd = true := by
  simp [KernelState.close]

/-- Reading does not touch the number of the descriptor. -/
@[simp] theorem processPairReadyRead_fd :
    (processPairReadyRead d k cnt).1.fd = d.fd := by
  unfold processPairReadyRead
  dsimp only
  split_ifs <;> rfl

/-- Other descriptors keep their position and stay open or closed. -/
theorem processPairReadyRead_frame
    {fd : Int}
    (hfd : fd ≠ d.fd) :
    (processPairReadyRead d k cnt).2.pos fd = k.pos fd ∧
    (processPairReadyRead d k cnt).2.closed fd = k.closed fd := by
  unfold processPairReadyRead KernelState.close KernelState.read
  dsimp only
  split_ifs <;> simp [hfd]

/-- Reading keeps the entry and the kernel in agreement. -/
theorem processPairReadyRead_sane
    {c : Call}
    (hsane : EntrySane c.stream k d)
    (hread : ReadReturns c k d.fd cnt) :
    EntrySane c.stream
      (processPairReadyRead d k cnt).2
      (processPairReadyRead d k cnt).1 := by
  obtain ⟨hcount, hpos, hclosed, hdone⟩ := hsane
  unfold processPairReadyRead
  rcases hread with hagain | ⟨hopen, ⟨h1, _, hlen⟩ | ⟨hzero, heof⟩⟩
  · subst hagain
    refine ⟨?_, ?_, ?_, ?_⟩ <;> simp_all
  · have hnot : d.done = false := by
      rw [← hclosed, hopen]
    have hcnt : cnt > 0 := by omega
    have hsum : k.pos d.fd + cnt.toNat ≤ (c.stream d.fd).length := by omega
    simp only [hcnt, if_true]
    refine ⟨?_, ?_, ?_, ?_⟩
    · rw [KernelState.read_pos_self, hcount, Nat.mod_add_mod]
    · rw [KernelState.read_pos_self]
      exact hsum
    · simpa using hclosed
    · intro h
      rw [hnot] at h
      cases h
  · subst hzero
    simp only [gt_iff_lt, lt_irrefl, if_false, if_true]
    refine ⟨?_, ?_, ?_, ?_⟩ <;> simp [hcount, heof]

/-- An event never clears the flag `done`. -/
theorem processPairReadyRead_done
    (h : d.done = true) :
    (processPairReadyRead d k cnt).1.done = true := by
  unfold processPairReadyRead
  dsimp only
  split_ifs <;> simp [h]

@[simp] theorem processEvent_fd :
    (processEvent mask d k left cnt).data.fd = d.fd := by
  unfold processEvent
  dsimp only
  split_ifs <;> simp

theorem processEvent_frame
    {fd : Int}
    (hfd : fd ≠ d.fd) :
    (processEvent mask d k left cnt).kernel.pos fd = k.pos fd ∧
    (processEvent mask d k left cnt).kernel.closed fd = k.closed fd := by
  unfold processEvent
  dsimp only
  split_ifs
  · exact processPairReadyRead_frame d k cnt hfd
  · exact ⟨rfl, rfl⟩

theorem processEvent_sane
    {c : Call}
    (hsane : EntrySane c.stream k d)
    (hread : ReadReturns c k d.fd cnt) :
    EntrySane c.stream
      (processEvent mask d k left cnt).kernel
      (processEvent mask d k left cnt).data := by
  unfold processEvent
  dsimp only
  split_ifs
  · exact processPairReadyRead_sane d k cnt hsane hread
  · exact hsane

theorem processEvent_done
    (h : d.done = true) :
    (processEvent mask d k left cnt).data.done = true := by
  unfold processEvent
  dsimp only
  split_ifs
  · exact processPairReadyRead_done d k cnt h
  · exact h

/-- An event that brings bytes to an open entry changes nothing else. -/
theorem processEvent_bytes
    (hopen : d.done = false)
    (hcnt : 0 < cnt) :
    processEvent epollIn d k left cnt =
      { data := { d with count := (d.count + cnt.toNat) % sizeMod }
        kernel := k.read d.fd cnt
        filesLeft := left } := by
  have hmask : epollIn ≠ 0 := by decide
  unfold processEvent processPairReadyRead
  simp [hmask, hcnt, hopen]

/-- The decrement is guarded by the flag as the event left it. -/
theorem processEvent_filesLeft :
    (processEvent mask d k left cnt).filesLeft =
      if (processEvent mask d k left cnt).data.done then
        toSizeT ((left : Int) - 1)
      else left := by
  rfl

end Entry

section Steps

variable {N : Nat} {s t : State N}

/-- The state in which an event of entry `e` has been processed. -/
def afterEvent
    (s : State N)
    (n : Int)
    (i : Nat)
    (e : Fin N)
    (cnt : Int) : State N :=
  let r :=
    processEvent (s.pending i).events (s.entries e)
      s.kernel s.filesLeft cnt
  { s with
    entries := Function.update s.entries e r.data
    kernel := r.kernel
    filesLeft := r.filesLeft
    pc := .inner n (i + 1) }

theorem next_epollWait
    {n : Int}
    {ready : List (EpollEvent N)}
    (h : next s (.epollWait n ready) = some t) :
    s.pc = .loopHead ∧ 0 < s.filesLeft ∧
      t = { s with
        pending := storeEvents s.pending ready
        pc := .inner n 0 } := by
  simp only [next] at h
  split at h
  · next hpc =>
      split_ifs at h with hpos
      exact ⟨hpc, hpos, (Option.some.inj h).symm⟩
  · cases h

/-- Everything a step of the two loops can do. -/
theorem next_cases
    {a : Label N}
    (h : next s a = some t) :
    (∃ n ready, a = .epollWait n ready ∧ s.pc = .loopHead ∧ 0 < s.filesLeft ∧
      t = { s with
        pending := storeEvents s.pending ready
        pc := .inner n 0 }) ∨
    (∃ cnt n i e, a = .event cnt ∧ s.pc = .inner n i ∧ i < toSizeT n ∧
      (s.pending i).dataPtr = some e ∧ entryInProcess s = some e ∧
      t = afterEvent s n i e cnt) ∨
    (∃ cnt, a = .event cnt ∧ entryInProcess s = none ∧
      t = { s with pc := .crashed }) ∨
    (∃ n i, a = .innerExit ∧ s.pc = .inner n i ∧ ¬ i < toSizeT n ∧
      t = { s with pc := .loopHead }) ∨
    (a = .outerExit ∧ s.pc = .loopHead ∧ s.filesLeft = 0 ∧
      t = { s with pc := .returned (sumCounts s.entries) }) := by
  cases a with
  | epollWait n ready =>
      exact Or.inl ⟨n, ready, rfl, next_epollWait h⟩
  | event cnt =>
      simp only [next] at h
      split at h
      · next n i hpc =>
          split_ifs at h with hi
          have ht := (Option.some.inj h).symm
          unfold innerBody at ht
          by_cases hmax : i < maxEvents
          · rw [if_pos hmax] at ht
            have he : entryInProcess s = (s.pending i).dataPtr := by
              simp only [entryInProcess, hpc, hi, hmax, and_self, if_true]
            cases hptr : (s.pending i).dataPtr with
            | none =>
                rw [hptr] at ht he
                exact Or.inr (Or.inr (Or.inl ⟨cnt, rfl, he, ht⟩))
            | some e =>
                rw [hptr] at ht he
                exact Or.inr (Or.inl
                  ⟨cnt, n, i, e, rfl, hpc, hi, hptr, he, ht⟩)
          · rw [if_neg hmax] at ht
            have he : entryInProcess s = none := by
              simp only [entryInProcess, hpc, hmax, and_false, if_false]
            exact Or.inr (Or.inr (Or.inl ⟨cnt, rfl, he, ht⟩))
      · cases h
  | innerExit =>
      simp only [next] at h
      split at h
      · next n i hpc =>
          split_ifs at h with hi
          exact Or.inr (Or.inr (Or.inr (Or.inl
            ⟨n, i, rfl, hpc, hi, (Option.some.inj h).symm⟩)))
      · cases h
  | outerExit =>
      simp only [next] at h
      split at h
      · next hpc =>
          split_ifs at h with hpos
          exact Or.inr (Or.inr (Or.inr (Or.inr
            ⟨rfl, hpc, by omega, (Option.some.inj h).symm⟩)))
      · cases h

end Steps

section Sanity

variable {c : Call}

/-- What holds in every run, whatever events epoll delivers. -/
structure EntriesSane
    (c : Call)
    (s : State c.N) : Prop where
  fd_eq : ∀ e, (s.entries e).fd = c.fds e
  entry : ∀ e, EntrySane c.stream s.kernel (s.entries e)
  left_lt : s.filesLeft < sizeMod
  result_eq :
    ∀ r, s.pc = .returned r → s.filesLeft = 0 ∧ r = sumCounts s.entries

theorem entriesSane_start
    (c : Call) :
    EntriesSane c c.start where
  fd_eq e := rfl
  entry e := ⟨rfl, Nat.zero_le _, rfl, fun h => by cases h⟩
  left_lt := c.N_lt
  result_eq r h := by cases h

/-- The entry of another descriptor is not affected by an event. -/
theorem afterEvent_entries_of_ne
    {N : Nat}
    (s : State N)
    (n : Int)
    (i : Nat)
    (cnt : Int)
    {e e' : Fin N}
    (h : e' ≠ e) :
    (afterEvent s n i e cnt).entries e' = s.entries e' := by
  simp [afterEvent, h]

@[simp] theorem afterEvent_entries_self
    {N : Nat}
    (s : State N)
    (n : Int)
    (i : Nat)
    (e : Fin N)
    (cnt : Int) :
    (afterEvent s n i e cnt).entries e =
      (processEvent (s.pending i).events (s.entries e)
        s.kernel s.filesLeft cnt).data := by
  simp [afterEvent]

theorem entriesSane_afterEvent
    {s : State c.N}
    {n : Int}
    {i : Nat}
    {e : Fin c.N}
    {cnt : Int}
    (hsane : EntriesSane c s)
    (hread : ReadReturns c s.kernel (s.entries e).fd cnt) :
    EntriesSane c (afterEvent s n i e cnt) where
  fd_eq e' := by
    by_cases h : e' = e
    · subst h
      simpa using hsane.fd_eq e'
    · rw [afterEvent_entries_of_ne s n i cnt h]
      exact hsane.fd_eq e'
  entry e' := by
    by_cases h : e' = e
    · subst h
      rw [afterEvent_entries_self]
      exact processEvent_sane _ _ _ _ _ (hsane.entry e') hread
    · -- distinct entries have distinct descriptors
      have hfd : (s.entries e').fd ≠ (s.entries e).fd := by
        rw [hsane.fd_eq, hsane.fd_eq]
        exact fun heq => h (c.fds.injective heq)
      obtain ⟨hpos, hclosed⟩ :=
        processEvent_frame (s.pending i).events (s.entries e)
          s.kernel s.filesLeft cnt hfd
      obtain ⟨h1, h2, h3, h4⟩ := hsane.entry e'
      rw [afterEvent_entries_of_ne s n i cnt h]
      refine ⟨?_, ?_, ?_, ?_⟩
      · exact h1.trans (by rw [← hpos]; rfl)
      · exact le_of_eq_of_le hpos h2
      · exact hclosed.trans h3
      · exact fun hd => hpos.trans (h4 hd)
  left_lt := by
    show (processEvent _ _ _ _ _).filesLeft < sizeMod
    rw [processEvent_filesLeft]
    split_ifs
    · exact toSizeT_lt _
    · exact hsane.left_lt
  result_eq r h := by
    simp [afterEvent] at h

theorem entriesSane_step
    {s t : State c.N}
    {a : Label c.N}
    (hsane : EntriesSane c s)
    (hallowed : KernelContract c s a)
    (hnext : next s a = some t) :
    EntriesSane c t := by
  have hkeep :
      ∀ pending pc,
        (∀ r, pc = Pc.returned r →
          s.filesLeft = 0 ∧ r = sumCounts s.entries) →
        EntriesSane c { s with pending := pending, pc := pc } :=
    fun _ _ hr => ⟨hsane.fd_eq, hsane.entry, hsane.left_lt, hr⟩
  rcases next_cases hnext with
    ⟨n, ready, -, -, -, rfl⟩ |
    ⟨cnt, n, i, e, rfl, -, -, -, he, rfl⟩ |
    ⟨cnt, -, -, rfl⟩ |
    ⟨n, i, -, -, -, rfl⟩ |
    ⟨-, -, hzero, rfl⟩
  · exact hkeep _ _ (fun r h => by cases h)
  · exact entriesSane_afterEvent hsane (hallowed e he)
  · exact hkeep _ _ (fun r h => by cases h)
  · exact hkeep _ _ (fun r h => by cases h)
  · refine hkeep _ _ (fun r h => ?_)
    cases h
    exact ⟨hzero, rfl⟩

/-- Every run under a contract that implies `KernelContract` keeps the entries
and the kernel in agreement. -/
theorem entriesSane_of_reachable
    {contract : State c.N → Label c.N → Prop}
    (hcontract : ∀ s a, contract s a → KernelContract c s a)
    {s : State c.N}
    (h : (system c contract).Reachable s) :
    EntriesSane c s := by
  refine h.invariant ?_ ?_
  · rintro _ rfl
    exact entriesSane_start c
  · rintro _ a _ hsane ⟨hallowed, hnext⟩
    exact entriesSane_step hsane (hcontract _ _ hallowed) hnext

end Sanity

end EpollReadFdsVector
end Networking
end OsSeminars
