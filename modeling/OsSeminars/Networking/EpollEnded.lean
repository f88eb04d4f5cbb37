import OsSeminars.Networking.EpollBatches

/-!
# `epoll-read-fds-vector.c`: the end of a stream

`process_event` finds out that a stream has ended by reading from it, and it
reads only when the mask of the event contains `EPOLLIN`. So an event of an ended
stream finishes its entry exactly when it carries that bit and the read does not
fail, as it does for a connection that has been reset.

An event without the bit, such as the `EPOLLHUP` of a drained pipe whose last
writer has closed, leaves everything as it was, and level-triggered epoll reports
it again at once.
-/

namespace OsSeminars
namespace Networking
namespace EpollReadFdsVector

open Foundation

/-- All bytes of the stream of an entry have been read. -/
def Drained
    (c : Call)
    (s : State c.N)
    (e : Fin c.N) :
    Prop :=
  s.kernel.pos (s.entries e).fd = (c.stream (s.entries e).fd).length

/-- An entry that is not done although its stream has ended: nothing is left to
read. -/
def EndedEntry
    (c : Call)
    (s : State c.N)
    (e : Fin c.N) :
    Prop :=
  (s.entries e).done = false ∧ Drained c s e

instance (c : Call) (s : State c.N) (e : Fin c.N) :
    Decidable (EndedEntry c s e) :=
  inferInstanceAs (Decidable (_ ∧ _ = _))

/-- From one state to another an entry was marked as done and counted down. -/
def Finished
    {N : Nat}
    (s t : State N)
    (e : Fin N) :
    Prop :=
  (t.entries e).done = true ∧ t.filesLeft = toSizeT ((s.filesLeft : Int) - 1)

instance {N : Nat} (s t : State N) (e : Fin N) :
    Decidable (Finished s t e) :=
  inferInstanceAs (Decidable (_ ∧ _))

/-- The mask of the event that the inner loop is about to process. -/
def maskInProcess
    {N : Nat}
    (s : State N) :
    UInt32 :=
  match s.pc with
  | .inner _ i => (s.pending i).events
  | _ => 0

/-- History of the entries that an event was processed for after the end of their
stream, without finishing them. -/
def recordUnfinished
    (c : Call)
    (s : State c.N)
    (a : Label c.N)
    (unfinished : List (Fin c.N)) :
    List (Fin c.N) :=
  match a, s.pc with
  | .event cnt, .inner n i =>
      match entryInProcess s with
      | none => unfinished
      | some e =>
          if EndedEntry c s e ∧ ¬ Finished s (afterEvent s n i e cnt) e then
            unfinished ++ [e]
          else unfinished
  | _, _ => unfinished

/-- `read_data_and_count` with the history of events that finish nothing. -/
def systemWithUnfinished
    (c : Call) :
    TransitionSystem (State c.N × List (Fin c.N)) (Label c.N) :=
  (system c (InterruptibleContract c)).withHistory [] (recordUnfinished c)

/-- Events of ended entries carry `EPOLLIN`, and `read` does not fail for them. -/
def ReportsInput
    (c : Call)
    (s : State c.N) :
    Label c.N → Prop
  | .event cnt =>
      ∀ e ∈ entryInProcess s, EndedEntry c s e →
        maskInProcess s &&& epollIn ≠ 0 ∧ cnt ≠ -1
  | _ => True

instance (c : Call) (s : State c.N) :
    (a : Label c.N) → Decidable (ReportsInput c s a)
  | .epollWait _ _ => inferInstanceAs (Decidable True)
  | .event _ =>
      inferInstanceAs (Decidable (∀ e ∈ entryInProcess s, _ → _ ≠ _ ∧ _ ≠ _))
  | .innerExit => inferInstanceAs (Decidable True)
  | .outerExit => inferInstanceAs (Decidable True)

section Ended

variable {c : Call} {s t : State c.N}

/-- At the end of an open stream there is nothing to be read. -/
theorem ReadReturns.of_drained
    {k : KernelState}
    {fd cnt : Int}
    (h : ReadReturns c k fd cnt)
    (hdrained : k.pos fd = (c.stream fd).length) :
    cnt = -1 ∨ cnt = 0 := by
  rcases h with hfail | ⟨-, ⟨hpos, -, hle⟩ | ⟨hzero, -⟩⟩
  · exact Or.inl hfail
  · rw [hdrained] at hle
    omega
  · exact Or.inr hzero

/-- At the end of a stream, only a read that does not fail, behind the bit `EPOLLIN`,
leads to the end of the entry. -/
theorem processEvent_finishes_iff
    {d : DataT}
    {cnt : Int}
    (mask : UInt32)
    (k : KernelState)
    (left : Nat)
    (hopen : d.done = false)
    (hcnt : cnt = -1 ∨ cnt = 0) :
    (processEvent mask d k left cnt).data.done = true ∧
        (processEvent mask d k left cnt).filesLeft = toSizeT ((left : Int) - 1) ↔
      mask &&& epollIn ≠ 0 ∧ cnt ≠ -1 := by
  by_cases hmask : mask &&& epollIn ≠ 0
  · rcases hcnt with rfl | rfl
    · -- the read fails, and the entry stays as it was
      refine iff_of_false ?_ (fun h => h.2 rfl)
      simp [processEvent, if_pos hmask, processPairReadyRead, hopen]
    · refine iff_of_true ?_ ⟨hmask, by decide⟩
      simp only [processEvent, if_pos hmask, processPairReadyRead]
      simp
  · refine iff_of_false ?_ (fun h => hmask h.1)
    simp only [processEvent, if_neg hmask, hopen]
    simp

/-- A failed wait changes only the loop bound. -/
theorem entriesSane_failedWait
    {n : Int}
    (h : EntriesSane c s)
    (hnext : next s (.epollWait n []) = some t) :
    EntriesSane c t := by
  obtain ⟨hpc, hleft, rfl⟩ := next_epollWait hnext
  have hempty : KernelContract c s (.epollWait 0 []) :=
    ⟨rfl, Nat.zero_le _, fun ev hev => by cases hev⟩
  have hwait : next s (.epollWait 0 []) =
      some { s with pending := storeEvents s.pending [], pc := .inner 0 0 } := by
    simp only [next, hpc, if_pos hleft]
  obtain ⟨hfd, hentry, hlt, -⟩ := entriesSane_step h hempty hwait
  exact ⟨hfd, hentry, hlt, fun r hr => by cases hr⟩

/-- The entries stay in agreement with the kernel also when waits fail. -/
theorem entriesSane_of_interruptible
    (h : (system c (InterruptibleContract c)).Reachable s) :
    EntriesSane c s := by
  refine h.invariant (I := EntriesSane c) ?_ ?_
  · rintro s rfl
    exact entriesSane_start c
  · rintro s a t hs ⟨hallowed, hnext⟩
    cases a with
    | epollWait n ready =>
        rcases hallowed with ⟨rfl, rfl⟩ | hwait
        · exact entriesSane_failedWait hs hnext
        · exact entriesSane_step hs hwait hnext
    | event cnt =>
        have hkernel : KernelContract c s (.event cnt) := hallowed
        exact entriesSane_step hs hkernel hnext
    | innerExit =>
        have hkernel : KernelContract c s .innerExit := trivial
        exact entriesSane_step hs hkernel hnext
    | outerExit =>
        have hkernel : KernelContract c s .outerExit := trivial
        exact entriesSane_step hs hkernel hnext

/-- One step adds to the history exactly when it processes an event of an ended
entry without the bit, or the read fails. -/
theorem unfinished_step_iff
    {unfinished : List (Fin c.N)}
    {a : Label c.N}
    (hempty : unfinished = [])
    (hallowed : InterruptibleContract c s a)
    (hnext : next s a = some t) :
    ReportsInput c s a ↔ recordUnfinished c s a unfinished = [] := by
  subst hempty
  rcases next_cases hnext with
    ⟨n, ready, rfl, -⟩ |
    ⟨cnt, n, i, e, rfl, hpc, -, -, he, -⟩ |
    ⟨cnt, rfl, hnone, -⟩ |
    ⟨n, i, rfl, -⟩ |
    ⟨rfl, -⟩
  · exact iff_of_true trivial rfl
  · have hmask : maskInProcess s = (s.pending i).events := by
      simp only [maskInProcess, hpc]
    simp only [ReportsInput, recordUnfinished, hpc, he, hmask, Option.mem_some_iff,
      forall_eq']
    by_cases hended : EndedEntry c s e
    · have hread : ReadReturns c s.kernel (s.entries e).fd cnt := hallowed e he
      have hiff := processEvent_finishes_iff (s.pending i).events s.kernel
        s.filesLeft hended.1 (hread.of_drained hended.2)
      have hfinished :
          Finished s (afterEvent s n i e cnt) e ↔
            (s.pending i).events &&& epollIn ≠ 0 ∧ cnt ≠ -1 := by
        rw [Finished, afterEvent_entries_self]
        exact hiff
      by_cases hbit : (s.pending i).events &&& epollIn ≠ 0 ∧ cnt ≠ -1
      · refine iff_of_true (fun _ => hbit) (if_neg ?_)
        rintro ⟨-, hnot⟩
        exact hnot (hfinished.mpr hbit)
      · refine iff_of_false (fun h => hbit (h hended)) ?_
        rw [if_pos ⟨hended, fun hfin => hbit (hfinished.mp hfin)⟩]
        simp
    · refine iff_of_true (fun h => absurd h hended) (if_neg ?_)
      rintro ⟨h, -⟩
      exact hended h
  · refine iff_of_true (fun e he => ?_) ?_
    · rw [hnone] at he
      cases he
    · simp only [recordUnfinished, hnone]
      split <;> rfl
  · exact iff_of_true trivial rfl
  · exact iff_of_true trivial rfl

end Ended

/-- In every reachable state, processing an event of an entry whose stream has
ended finishes the entry if and only if the mask contains `EPOLLIN` and the read does
not fail; and a run processes no such event without finishing its entry if and only if
all of them carry that bit and none of their reads fails. -/
theorem ended_entries_finish_iff
    (c : Call) :
    (∀ s, (system c (InterruptibleContract c)).Reachable s →
      ∀ e, (s.entries e).done = false → Drained c s e →
        ReadReturns c s.kernel (s.entries e).fd 0 ∧
        ∀ cnt, ReadReturns c s.kernel (s.entries e).fd cnt →
          ∀ mask,
            ((processEvent mask (s.entries e) s.kernel s.filesLeft cnt).data.done = true ∧
              (processEvent mask (s.entries e) s.kernel s.filesLeft cnt).filesLeft =
                toSizeT ((s.filesLeft : Int) - 1)) ↔
            mask &&& epollIn ≠ 0 ∧ cnt ≠ -1) ∧
    ∀ path, (systemWithUnfinished c).Path (c.start, []) path →
      ((∀ p ∈ path.map Prod.snd, p.2 = []) ↔
        TransitionSystem.StepsMeet (fun p a => ReportsInput c p.1 a)
          (c.start, []) path) := by
  constructor
  · intro s hs e hopen hdrained
    have hsane := entriesSane_of_interruptible hs
    refine ⟨Or.inr ⟨?_, Or.inr ⟨rfl, hdrained⟩⟩, fun cnt hread mask =>
      processEvent_finishes_iff mask s.kernel s.filesLeft hopen (hread.of_drained hdrained)⟩
    rw [(hsane.entry e).closed_eq]
    exact hopen
  · intro path hpath
    refine TransitionSystem.forall_visited_iff_stepsMeet
      (I := fun _ => True) (P := fun p => p.2 = []) (fun _ _ _ _ _ => trivial) ?_
      trivial rfl hpath
    rintro ⟨s, unfinished⟩ a ⟨t, unfinished'⟩ - hempty ⟨⟨hallowed, hnext⟩, rfl⟩
    exact unfinished_step_iff hempty hallowed hnext

section Hangup

/-- The end of the only stream, reported as input. -/
def endReported : List (Label oneDescriptor.N) :=
  [.epollWait 1 [⟨epollIn, some onlyEntry⟩], .event 0, .innerExit, .outerExit]

theorem ended_entries_finish_oneDescriptor :
    ((processEvent epollIn (oneDescriptor.start.entries onlyEntry)
        oneDescriptor.start.kernel oneDescriptor.start.filesLeft 0).data.done = true ∧
      (processEvent epollIn (oneDescriptor.start.entries onlyEntry)
        oneDescriptor.start.kernel oneDescriptor.start.filesLeft 0).filesLeft = 0) ∧
    ∀ p ∈ (TransitionSystem.historyPath next (recordUnfinished oneDescriptor)
        oneDescriptor.start [] endReported).map Prod.snd, p.2 = [] := by
  obtain ⟨hstates, hruns⟩ := ended_entries_finish_iff oneDescriptor
  obtain ⟨hread, hfinish⟩ := hstates oneDescriptor.start (.init rfl) onlyEntry rfl rfl
  refine ⟨(hfinish 0 hread epollIn).mpr (by decide), (hruns _ ?_).mpr (by decide)⟩
  exact TransitionSystem.path_of_exec endReported _ _ (by decide)

/-- The only writer of a drained pipe closes it: the hang-up is reported without
`EPOLLIN`, and processing it does not finish the entry. -/
theorem not_ended_entry_finishes_hangup :
    ¬ ∀ s, (system oneDescriptor (InterruptibleContract oneDescriptor)).Reachable s →
      ∀ e, (s.entries e).done = false → Drained oneDescriptor s e →
        ∀ mask,
          (processEvent mask (s.entries e) s.kernel s.filesLeft 0).data.done = true ∧
          (processEvent mask (s.entries e) s.kernel s.filesLeft 0).filesLeft =
            toSizeT ((s.filesLeft : Int) - 1) := by
  intro hall
  have hdone :=
    (hall oneDescriptor.start (.init rfl) onlyEntry rfl rfl epollHup).1
  exact absurd hdone (by decide)

end Hangup

end EpollReadFdsVector
end Networking
end OsSeminars
