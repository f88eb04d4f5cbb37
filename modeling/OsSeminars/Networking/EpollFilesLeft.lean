import OsSeminars.Networking.EpollEntries
import Mathlib.Algebra.BigOperators.Fin
import Mathlib.Algebra.BigOperators.Group.Finset.Basic
import Mathlib.Algebra.Order.BigOperators.Group.Finset
import Mathlib.Data.Finset.Card
import Mathlib.Tactic.FinCases

/-!
# 17-networking/epoll-read-fds-vector.c: the counter `files_left`

The counter `files_left` is decremented after every event of an entry that is
done, not when the entry becomes done. So it counts the remaining entries as
long as no event is processed for an entry that is done already
(`NotDoneYet`), and it is wrong from the first such event on.
-/

namespace OsSeminars
namespace Networking
namespace EpollReadFdsVector

open Foundation

section FilesLeft

variable {c : Call}

/-- No event is processed for an entry that is done already. -/
def NotDoneYet
    {N : Nat}
    (s : State N) :
    Label N → Prop
  | .event _ => ∀ e ∈ entryInProcess s, (s.entries e).done = false
  | _ => True

instance {N : Nat} (s : State N) :
    (a : Label N) → Decidable (NotDoneYet s a)
  | .epollWait _ _ => inferInstanceAs (Decidable True)
  | .event _ => inferInstanceAs (Decidable (∀ e ∈ entryInProcess s, _))
  | .innerExit => inferInstanceAs (Decidable True)
  | .outerExit => inferInstanceAs (Decidable True)

/--
History variable of the decrements of `files_left`: how often it was
decremented for every entry.
-/
def countDecrements
    {N : Nat}
    (s : State N)
    (a : Label N)
    (decs : Fin N → Nat) : Fin N → Nat :=
  match a, s.pc with
  | .event cnt, .inner n i =>
      match entryInProcess s with
      | none => decs
      | some e =>
          if ((afterEvent s n i e cnt).entries e).done then
            Function.update decs e (decs e + 1)
          else decs
  | _, _ => decs

/-- `read_data_and_count` with the history of decrements. -/
def systemWithDecrements
    (c : Call)
    (contract : State c.N → Label c.N → Prop) :
    TransitionSystem (State c.N × (Fin c.N → Nat)) (Label c.N) :=
  (system c contract).withHistory (fun _ => 0) countDecrements

/--
The counter is exact: every entry was counted down at most once, the counter
never wrapped, and the outer loop was left only with all entries done.
-/
structure FilesLeftExact
    (c : Call)
    (p : State c.N × (Fin c.N → Nat)) : Prop where
  once : ∀ e, p.2 e ≤ 1
  no_wrap : p.1.filesLeft + ∑ e, p.2 e = c.N
  exit_done : ∀ r, p.1.pc = .returned r → ∀ e, (p.1.entries e).done = true

/-- In every run an entry is done exactly when it was counted down. -/
structure DecrementsSane
    (c : Call)
    (p : State c.N × (Fin c.N → Nat)) : Prop where
  sane : EntriesSane c p.1
  done_counted : ∀ e, (p.1.entries e).done = true → 1 ≤ p.2 e
  open_uncounted : ∀ e, (p.1.entries e).done = false → p.2 e = 0

/-- The history after an event of entry `e`. -/
theorem countDecrements_event
    {s : State c.N}
    {decs : Fin c.N → Nat}
    {cnt n : Int}
    {i : Nat}
    {e : Fin c.N}
    (hpc : s.pc = .inner n i)
    (he : entryInProcess s = some e) :
    countDecrements s (.event cnt) decs =
      if ((afterEvent s n i e cnt).entries e).done then
        Function.update decs e (decs e + 1)
      else decs := by
  simp only [countDecrements, hpc, he]

theorem countDecrements_none
    {s : State c.N}
    {decs : Fin c.N → Nat}
    {cnt : Int}
    (he : entryInProcess s = none) :
    countDecrements s (.event cnt) decs = decs := by
  simp only [countDecrements, he]
  split <;> rfl

/-- An event of an entry that is done leaves it done. -/
theorem afterEvent_done
    {N : Nat}
    (s : State N)
    (n : Int)
    (i : Nat)
    (e : Fin N)
    (cnt : Int)
    {e' : Fin N}
    (h : (s.entries e').done = true) :
    ((afterEvent s n i e cnt).entries e').done = true := by
  by_cases he : e' = e
  · subst he
    rw [afterEvent_entries_self]
    exact processEvent_done _ _ _ _ _ h
  · rwa [afterEvent_entries_of_ne s n i cnt he]

theorem decrementsSane_step
    {p q : State c.N × (Fin c.N → Nat)}
    {a : Label c.N}
    (hp : DecrementsSane c p)
    (hst : (systemWithDecrements c (KernelContract c)).step p a q) :
    DecrementsSane c q := by
  obtain ⟨s, decs⟩ := p
  obtain ⟨t, decs'⟩ := q
  obtain ⟨⟨hallowed, hnext⟩, hdecs⟩ := hst
  obtain ⟨hsane, hdone, hopen⟩ := hp
  dsimp only at hallowed hnext hdecs hsane hdone hopen
  have hsane' := entriesSane_step hsane hallowed hnext
  rcases next_cases hnext with
    ⟨n, ready, rfl, -, -, rfl⟩ |
    ⟨cnt, n, i, e, rfl, hpc, -, -, he, rfl⟩ |
    ⟨cnt, rfl, hnone, rfl⟩ |
    ⟨n, i, rfl, -, -, rfl⟩ |
    ⟨rfl, -, -, rfl⟩
  · subst hdecs
    exact ⟨hsane', hdone, hopen⟩
  · rw [countDecrements_event hpc he] at hdecs
    subst hdecs
    refine ⟨hsane', fun e' he' => ?_, fun e' he' => ?_⟩
    · by_cases h : e' = e
      · subst h
        dsimp only at he' ⊢
        rw [if_pos he']
        simp
      · dsimp only at he' ⊢
        rw [afterEvent_entries_of_ne s n i cnt h] at he'
        have hle := hdone e' he'
        split_ifs
        · rwa [Function.update_of_ne h]
        · exact hle
    · by_cases h : e' = e
      · subst h
        dsimp only at he' ⊢
        rw [if_neg (by rw [he']; exact Bool.false_ne_true)]
        -- the entry was open before the event too
        refine hopen e' ?_
        by_contra hne
        have hdone' :=
          afterEvent_done s n i e' cnt (Bool.eq_true_of_not_eq_false hne)
        rw [hdone'] at he'
        cases he'
      · dsimp only at he' ⊢
        rw [afterEvent_entries_of_ne s n i cnt h] at he'
        have hzero := hopen e' he'
        split_ifs
        · rwa [Function.update_of_ne h]
        · exact hzero
  · rw [countDecrements_none hnone] at hdecs
    subst hdecs
    exact ⟨hsane', hdone, hopen⟩
  · subst hdecs
    exact ⟨hsane', hdone, hopen⟩
  · subst hdecs
    exact ⟨hsane', hdone, hopen⟩

/-- A decrement history that counts nothing twice counts the done entries. -/
theorem sum_decrements_lt
    {decs : Fin c.N → Nat}
    (honce : ∀ e, decs e ≤ 1)
    {e : Fin c.N}
    (hzero : decs e = 0) :
    ∑ e', decs e' < c.N := by
  calc
    ∑ e', decs e' < ∑ _e' : Fin c.N, 1 :=
        Finset.sum_lt_sum (fun e' _ => honce e')
          ⟨e, Finset.mem_univ e, by omega⟩
    _ = c.N := by simp

/-- Counting entry `e` once more adds one to the number of decrements. -/
theorem sum_update_decrements
    (decs : Fin c.N → Nat)
    (e : Fin c.N) :
    ∑ e', Function.update decs e (decs e + 1) e' = ∑ e', decs e' + 1 := by
  rw [Finset.sum_update_of_mem (Finset.mem_univ e)]
  rw [← Finset.sum_erase_add _ _ (Finset.mem_univ e), Finset.sdiff_singleton_eq_erase]
  omega

/-- An event of an open entry keeps the counter exact. -/
theorem filesLeftExact_event_open
    {s : State c.N}
    {decs : Fin c.N → Nat}
    {n cnt : Int}
    {i : Nat}
    {e : Fin c.N}
    (hp : FilesLeftExact c (s, decs))
    (hsane : DecrementsSane c (s, decs))
    (hopen : (s.entries e).done = false) :
    FilesLeftExact c
      (afterEvent s n i e cnt,
        if ((afterEvent s n i e cnt).entries e).done then
          Function.update decs e (decs e + 1)
        else decs) := by
  have honce : ∀ e', decs e' ≤ 1 := hp.once
  have hsum : s.filesLeft + ∑ e', decs e' = c.N := hp.no_wrap
  have hzero : decs e = 0 := hsane.open_uncounted e hopen
  have hlt := sum_decrements_lt honce hzero
  have hleft :
      (afterEvent s n i e cnt).filesLeft =
        if ((afterEvent s n i e cnt).entries e).done then
          toSizeT ((s.filesLeft : Int) - 1)
        else s.filesLeft := by
    rw [afterEvent_entries_self]
    exact processEvent_filesLeft _ _ _ _ _
  by_cases hdone : ((afterEvent s n i e cnt).entries e).done = true
  · rw [if_pos hdone] at hleft ⊢
    have hpos : 0 < s.filesLeft := by omega
    have hbound : s.filesLeft < sizeMod := hsane.sane.left_lt
    rw [toSizeT_pred hpos hbound] at hleft
    refine ⟨fun e' => ?_, ?_, ?_⟩
    · by_cases h : e' = e
      · subst h
        simp [hzero]
      · dsimp only
        rw [Function.update_of_ne h]
        exact honce e'
    · dsimp only
      rw [hleft, sum_update_decrements]
      omega
    · intro r hr
      simp [afterEvent] at hr
  · rw [if_neg hdone] at hleft ⊢
    refine ⟨honce, ?_, ?_⟩
    · dsimp only
      rw [hleft]
      exact hsum
    · intro r hr
      simp [afterEvent] at hr

/-- An event of an entry that is done counts it down a second time. -/
theorem not_filesLeftExact_event_done
    {s t : State c.N}
    {decs : Fin c.N → Nat}
    {n cnt : Int}
    {i : Nat}
    {e : Fin c.N}
    (hsane : DecrementsSane c (s, decs))
    (hdone : (s.entries e).done = true) :
    ¬ FilesLeftExact c
      (t,
        if ((afterEvent s n i e cnt).entries e).done then
          Function.update decs e (decs e + 1)
        else decs) := by
  intro hexact
  have honce := hexact.once e
  have hone := hsane.done_counted e hdone
  dsimp only at honce hone
  rw [if_pos (afterEvent_done s n i e cnt hdone)] at honce
  simp at honce
  omega

/-- One step keeps the counter exact iff it processes no entry a second time. -/
theorem filesLeftExact_step_iff
    {p q : State c.N × (Fin c.N → Nat)}
    {a : Label c.N}
    (hsane : DecrementsSane c p)
    (hp : FilesLeftExact c p)
    (hst : (systemWithDecrements c (KernelContract c)).step p a q) :
    NotDoneYet p.1 a ↔ FilesLeftExact c q := by
  obtain ⟨s, decs⟩ := p
  obtain ⟨t, decs'⟩ := q
  obtain ⟨⟨-, hnext⟩, hdecs⟩ := hst
  dsimp only at hnext hdecs ⊢
  rcases next_cases hnext with
    ⟨n, ready, rfl, -, -, rfl⟩ |
    ⟨cnt, n, i, e, rfl, hpc, -, -, he, rfl⟩ |
    ⟨cnt, rfl, hnone, rfl⟩ |
    ⟨n, i, rfl, -, -, rfl⟩ |
    ⟨rfl, -, hzero, rfl⟩
  · subst hdecs
    refine iff_of_true trivial ⟨hp.once, hp.no_wrap, ?_⟩
    exact fun r hr => by cases hr
  · rw [countDecrements_event hpc he] at hdecs
    subst hdecs
    by_cases hopen : (s.entries e).done = false
    · refine iff_of_true ?_ (filesLeftExact_event_open hp hsane hopen)
      intro e' he'
      rw [he] at he'
      cases he'
      exact hopen
    · refine iff_of_false (fun h => hopen (h e he)) ?_
      exact not_filesLeftExact_event_done hsane
        (Bool.eq_true_of_not_eq_false hopen)
  · rw [countDecrements_none hnone] at hdecs
    subst hdecs
    refine iff_of_true ?_ ⟨hp.once, hp.no_wrap, fun r hr => by cases hr⟩
    intro e' he'
    rw [hnone] at he'
    cases he'
  · subst hdecs
    refine iff_of_true trivial ⟨hp.once, hp.no_wrap, ?_⟩
    exact fun r hr => by cases hr
  · subst hdecs
    refine iff_of_true trivial ⟨hp.once, hp.no_wrap, ?_⟩
    -- all `N` decrements were made, one for every entry
    intro r _ e
    by_contra hne
    have huncounted :=
      hsane.open_uncounted e (Bool.eq_false_of_not_eq_true hne)
    have hlt := sum_decrements_lt hp.once huncounted
    have hsum := hp.no_wrap
    dsimp only at hlt hsum hzero
    omega

/-- The state with its empty history when the outer loop is entered. -/
theorem decrementsSane_start
    (c : Call) :
    DecrementsSane c (c.start, fun _ => 0) :=
  ⟨entriesSane_start c, fun _ h => Bool.noConfusion h, fun _ _ => rfl⟩

theorem filesLeftExact_start
    (c : Call) :
    FilesLeftExact c (c.start, fun _ => 0) :=
  ⟨fun e => Nat.zero_le _, by simp [Call.start], fun r h => by cases h⟩

/--
The exact condition: a run of `read_data_and_count` counts every entry down at
most once, never wraps the counter and leaves the loop only with all entries
done if and only if it never processes an event of an entry that is done.
-/
theorem filesLeft_exact_iff_notDoneYet
    (c : Call)
    (path : List (Label c.N × (State c.N × (Fin c.N → Nat))))
    (hpath :
      (systemWithDecrements c (KernelContract c)).Path
        (c.start, fun _ => 0) path) :
    (∀ p ∈ path.map Prod.snd, FilesLeftExact c p)
      ↔
    TransitionSystem.StepsMeet (fun p a => NotDoneYet p.1 a)
      (c.start, fun _ => 0) path :=
  TransitionSystem.forall_visited_iff_stepsMeet
    (fun _ _ _ hp hst => decrementsSane_step hp hst)
    (fun _ _ _ hsane hp hst => filesLeftExact_step_iff hsane hp hst)
    (decrementsSane_start c) (filesLeftExact_start c) hpath

/-- Two descriptors: an empty stream and a stream of one byte. -/
def emptyAndOneByte : Call where
  N := 2
  N_lt := by decide
  fds := ⟨fun i => (i.val : Int) + 3, fun i j h => Fin.ext (by simpa using h)⟩
  stream fd := if fd = 4 then [0x78] else []

/-- The entry of the empty stream. -/
def emptyEntry : Fin emptyAndOneByte.N := ⟨0, by decide⟩

/-- The entry of the stream of one byte. -/
def oneByteEntry : Fin emptyAndOneByte.N := ⟨1, by decide⟩

/--
The empty stream ends, and its entry is reported once more before the byte of
the other stream is read: `files_left` drops to zero and the loop is left.
-/
def repeatedEvent : List (Label emptyAndOneByte.N) :=
  [.epollWait 1 [⟨epollIn, some emptyEntry⟩], .event 0, .innerExit,
    .epollWait 1 [⟨epollIn, some emptyEntry⟩], .event (-1), .innerExit,
    .outerExit]

theorem filesLeft_not_exact_of_repeatedEvent :
    ¬ ∀ p,
      (systemWithDecrements emptyAndOneByte
        (KernelContract emptyAndOneByte)).Reachable p →
      FilesLeftExact emptyAndOneByte p := by
  intro hall
  have hstart :
      (system emptyAndOneByte (KernelContract emptyAndOneByte)).Reachable
        emptyAndOneByte.start :=
    .init rfl
  obtain ⟨s, hs, hpc, hopen⟩ :
      ∃ s,
        (system emptyAndOneByte (KernelContract emptyAndOneByte)).Reachable s ∧
        s.pc = .returned 0 ∧
        (s.entries oneByteEntry).done = false := by
    obtain ⟨s, hs, htest⟩ :=
      TransitionSystem.exists_reachable_of_exec repeatedEvent
        (fun s => s.pc = .returned 0 ∧ (s.entries oneByteEntry).done = false)
        hstart (by decide) (by decide)
    exact ⟨s, hs, of_decide_eq_true htest⟩
  obtain ⟨decs, hdecs⟩ := hs.exists_history
  have hdone := (hall (s, decs) hdecs).exit_done 0 hpc oneByteEntry
  rw [hopen] at hdone
  cases hdone

/-- The same streams when no entry is reported after its stream ended. -/
def singleEvents : List (Label emptyAndOneByte.N) :=
  [.epollWait 2
      [⟨epollIn, some emptyEntry⟩, ⟨epollIn, some oneByteEntry⟩],
    .event 0, .event 1, .innerExit,
    .epollWait 1 [⟨epollIn, some oneByteEntry⟩], .event 0, .innerExit,
    .outerExit]

theorem filesLeft_exact_along_singleEvents :
    (TransitionSystem.exec next emptyAndOneByte.start singleEvents).any
        (fun s => s.pc = .returned 1) = true ∧
    ∀ p ∈ (TransitionSystem.historyPath next countDecrements
        emptyAndOneByte.start (fun _ => 0) singleEvents).map Prod.snd,
      FilesLeftExact emptyAndOneByte p := by
  refine ⟨by decide,
    (filesLeft_exact_iff_notDoneYet emptyAndOneByte _ ?_).mpr ?_⟩
  · exact TransitionSystem.path_of_exec singleEvents _ _ (by decide)
  · decide

end FilesLeft

end EpollReadFdsVector
end Networking
end OsSeminars
