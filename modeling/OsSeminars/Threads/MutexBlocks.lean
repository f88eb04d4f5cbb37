import OsSeminars.Threads.MutexExample
import Mathlib.Algebra.BigOperators.Group.Finset.Basic
import Mathlib.Algebra.Order.BigOperators.Group.Finset

/-!
# 15-threads/mutex-example.c: blocks in the buffer

The list of threads that stored a character is a sequence of complete blocks
followed by the open block of the thread that holds the mutex. The complete
blocks are counted by the program points: a thread in round `j` of its outer
loop has contributed `j` of them.

This invariant is kept by every step of every thread, although a call of
`write_to_server` may be interrupted between any two of its memory accesses: the
mutex keeps all other threads out of the inner loop.
-/

namespace OsSeminars
namespace Threads
namespace MutexExample

open Foundation

/-- Between `pthread_mutex_lock` and `pthread_mutex_unlock`. -/
def InCriticalSection : ThreadPc → Prop
  | .inner _ _ => True
  | .write _ _ _ => True
  | .yield _ _ => True
  | .unlock _ => True
  | _ => False

/-- Inside the loop over `i`. -/
def InInnerLoop : ThreadPc → Prop
  | .inner _ _ => True
  | .write _ _ _ => True
  | .yield _ _ => True
  | _ => False

/-- The number of complete blocks of a thread. -/
def ThreadPc.completed (tries : Nat) : ThreadPc → Nat
  | .notCreated => 0
  | .outer j => j
  | .lock j => j
  | .inner j _ => j
  | .write j _ _ => j
  | .yield j _ => j
  | .unlock j => j + 1
  | .returned => tries

/-- The number of characters in the open block of a thread. -/
def ThreadPc.openLength : ThreadPc → Nat
  | .inner _ i => i
  | .write _ i w => i + w.stored
  | .yield _ i => i + 1
  | _ => 0

/-- The number of characters stored and not yet counted in `srv->len`. -/
def ThreadPc.uncounted : ThreadPc → Nat
  | .write _ _ w => w.uncounted
  | _ => 0

/-- The loop counters are in range. -/
def ThreadPc.Bounded (c : Constants) : ThreadPc → Prop
  | .outer j => j ≤ c.tries
  | .lock j => j < c.tries
  | .inner j i => j < c.tries ∧ i ≤ c.msgLen
  | .write j i _ => j < c.tries ∧ i < c.msgLen
  | .yield j i => j < c.tries ∧ i < c.msgLen
  | .unlock j => j < c.tries
  | _ => True

/-- What the thread has read of `srv->len` is still its value. -/
def ThreadPc.Current (len : Nat) : ThreadPc → Prop
  | .write _ _ w => w.Current len
  | _ => True

/-- What `main` knows about the threads. -/
def MainKnows
    {n : Nat}
    (threads : Fin n → ThreadPc) :
    MainPc → Prop
  | .create i => ∀ t : Fin n, i ≤ t.val → threads t = .notCreated
  | .join i => ∀ t : Fin n, t.val < i → threads t = .returned
  | .dumpBuff => ∀ t : Fin n, threads t = .returned

/-- One message of a thread in the list of writers. -/
def block
    (c : Constants)
    (t : Fin c.nThreads) : List (Fin c.nThreads) :=
  List.replicate c.msgLen t

/--
The writers are the blocks of `owners` in order, and then the open block.
-/
structure Inv
    (c : Constants)
    (s : State c)
    (writers owners openBlock : List (Fin c.nThreads)) : Prop where
  guards : s.mutex.Guards InCriticalSection s.threads
  bounded : ∀ t, (s.threads t).Bounded c
  current : ∀ t, (s.threads t).Current s.srv.len
  cap_eq : s.srv.cap = c.nThreads * c.tries * c.msgLen
  buf_eq :
    s.srv.buf =
      writers.map threadChar ++
        List.replicate (s.srv.cap - writers.length) 0
  writers_eq : writers = owners.flatMap (block c) ++ openBlock
  counts : ∀ t, owners.count t = (s.threads t).completed c.tries
  free :
    s.mutex.holder = none →
      openBlock = [] ∧ s.srv.len = writers.length
  held :
    ∀ t, s.mutex.holder = some t →
      openBlock = List.replicate (s.threads t).openLength t ∧
      s.srv.len + (s.threads t).uncounted = writers.length
  main : MainKnows s.threads s.main

section Counting

theorem completed_le
    {c : Constants}
    {pc : ThreadPc}
    (h : pc.Bounded c) :
    pc.completed c.tries ≤ c.tries := by
  cases pc <;> simp [ThreadPc.Bounded, ThreadPc.completed] at * <;> omega

/-- A list over `n` elements is as long as the counts of its elements add up to. -/
theorem length_eq_sum_count
    {n : Nat}
    (l : List (Fin n)) :
    l.length = ∑ t, l.count t := by
  have hcard :=
    Multiset.sum_count_eq_card (s := Finset.univ) (m := (l : Multiset (Fin n)))
      (fun a _ => Finset.mem_univ a)
  simpa using hcard.symm

theorem sum_const_fin
    (n k : Nat) :
    ∑ _t : Fin n, k = n * k := by
  rw [Finset.sum_const_nat (fun _ _ => rfl), Finset.card_univ, Fintype.card_fin]

theorem length_blocks
    (c : Constants)
    (owners : List (Fin c.nThreads)) :
    (owners.flatMap (block c)).length = owners.length * c.msgLen := by
  induction owners with
  | nil =>
      simp
  | cons t owners ih =>
      rw [List.flatMap_cons, List.length_append, ih, List.length_cons]
      simp [block, Nat.add_mul, Nat.add_comm]

theorem map_blocks
    (c : Constants)
    (owners : List (Fin c.nThreads)) :
    (owners.flatMap (block c)).map threadChar =
      owners.flatMap (fun t => List.replicate c.msgLen (threadChar t)) := by
  simp [List.map_flatMap, block]

/-- While one thread is in its outer loop, a block is missing. -/
theorem length_owners_lt
    {c : Constants}
    {owners : List (Fin c.nThreads)}
    {f : Fin c.nThreads → Nat}
    (hcount : ∀ t, owners.count t = f t)
    (hle : ∀ t, f t ≤ c.tries)
    (t : Fin c.nThreads)
    (hlt : f t < c.tries) :
    owners.length < c.nThreads * c.tries := by
  have hsum : ∑ u, f u < ∑ _u : Fin c.nThreads, c.tries :=
    Finset.sum_lt_sum (fun u _ => hle u) ⟨t, Finset.mem_univ t, hlt⟩
  rw [length_eq_sum_count owners, Finset.sum_congr rfl fun u _ => hcount u]
  rwa [sum_const_fin] at hsum

/-- Storing behind the characters written so far. -/
theorem set_zeroFilled
    {α : Type*}
    (l : List α)
    (x z : α)
    {cap : Nat}
    (hroom : l.length < cap) :
    (l ++ List.replicate (cap - l.length) z).set l.length x =
      (l ++ [x]) ++ List.replicate (cap - (l.length + 1)) z := by
  obtain ⟨k, rfl⟩ : ∃ k, cap = l.length + 1 + k :=
    ⟨cap - (l.length + 1), by omega⟩
  have hrest : l.length + 1 + k - l.length = k + 1 := by
    omega
  rw [hrest, List.replicate_succ, List.set_append_right _ _ (Nat.le_refl _)]
  simp

end Counting

section Preservation

variable {c : Constants} {s : State c}
variable {writers owners openBlock : List (Fin c.nThreads)}
variable {t : Fin c.nThreads} {pc : ThreadPc}

theorem inv_start
    {c : Constants}
    (hfits : c.nThreads * c.tries * c.msgLen < sizeMod) :
    Inv c (start c) [] [] [] where
  guards t := by simp [start, InCriticalSection, Monitor.initial]
  bounded _ := trivial
  current _ := trivial
  cap_eq := Nat.mod_eq_of_lt hfits
  buf_eq := by simp [start, initServer]
  writers_eq := rfl
  counts _ := rfl
  free _ := ⟨rfl, rfl⟩
  held _ h := by cases h
  main _ _ := rfl

theorem Inv.holder_eq
    (hinv : Inv c s writers owners openBlock)
    (hin : InCriticalSection (s.threads t)) :
    s.mutex.holder = some t :=
  (hinv.guards t).mp hin

/-- A thread that has just moved is neither waiting for its creation nor over. -/
theorem mainKnows_update
    {threads : Fin c.nThreads → ThreadPc}
    {main : MainPc}
    (h : MainKnows threads main)
    (hnew : threads t ≠ .notCreated)
    (hold : threads t ≠ .returned) :
    MainKnows (Function.update threads t pc) main := by
  cases main with
  | create i =>
      intro u hu
      rw [Function.update_of_ne]
      · exact h u hu
      · rintro rfl
        exact hnew (h u hu)
  | join i =>
      intro u hu
      rw [Function.update_of_ne]
      · exact h u hu
      · rintro rfl
        exact hold (h u hu)
  | dumpBuff =>
      exact absurd (h t) hold

theorem current_of_outside
    {len : Nat}
    (h : ¬ InCriticalSection pc) :
    pc.Current len := by
  cases pc <;> first | trivial | exact absurd trivial h

/-- The program points of all threads have a property that the new one has. -/
theorem forall_update
    {P : Fin c.nThreads → ThreadPc → Prop}
    {threads : Fin c.nThreads → ThreadPc}
    (h : ∀ u, u ≠ t → P u (threads u))
    (hpc : P t pc) :
    ∀ u, P u (Function.update threads t pc u) := by
  intro u
  by_cases hu : u = t
  · subst hu
    rw [Function.update_self]
    exact hpc
  · rw [Function.update_of_ne hu]
    exact h u hu

theorem Inv.counts_update
    (hinv : Inv c s writers owners openBlock)
    (hpc : owners.count t = pc.completed c.tries) :
    ∀ u, owners.count u =
      (Function.update s.threads t pc u).completed c.tries :=
  forall_update (P := fun u pc => owners.count u = pc.completed c.tries)
    (fun u _ => hinv.counts u) hpc

theorem Inv.bounded_update
    (hinv : Inv c s writers owners openBlock)
    (hpc : pc.Bounded c) :
    ∀ u, (Function.update s.threads t pc u).Bounded c :=
  forall_update (fun u _ => hinv.bounded u) hpc

theorem Inv.current_update
    (hinv : Inv c s writers owners openBlock)
    (hpc : pc.Current s.srv.len) :
    ∀ u, (Function.update s.threads t pc u).Current s.srv.len :=
  forall_update (fun u _ => hinv.current u) hpc

theorem Inv.held_update
    (hinv : Inv c s writers owners openBlock)
    (hpc :
      s.mutex.holder = some t →
        openBlock = List.replicate pc.openLength t ∧
        s.srv.len + pc.uncounted = writers.length) :
    ∀ u, s.mutex.holder = some u →
      openBlock =
        List.replicate (Function.update s.threads t pc u).openLength u ∧
      s.srv.len + (Function.update s.threads t pc u).uncounted =
        writers.length :=
  forall_update
    (P := fun u pc =>
      s.mutex.holder = some u →
        openBlock = List.replicate pc.openLength u ∧
        s.srv.len + pc.uncounted = writers.length)
    (fun u _ => hinv.held u) hpc

/-- A step that moves a thread and touches neither the server nor the mutex. -/
theorem inv_setPc
    (hinv : Inv c s writers owners openBlock)
    (hnew : s.threads t ≠ .notCreated)
    (hold : s.threads t ≠ .returned)
    (hcrit : InCriticalSection pc ↔ InCriticalSection (s.threads t))
    (hbounded : pc.Bounded c)
    (hcurrent : pc.Current s.srv.len)
    (hcompleted : pc.completed c.tries = (s.threads t).completed c.tries)
    (hopen : pc.openLength = (s.threads t).openLength)
    (huncounted : pc.uncounted = (s.threads t).uncounted) :
    Inv c (s.setPc t pc) writers owners openBlock where
  guards := hinv.guards.move hcrit
  bounded := hinv.bounded_update hbounded
  current := hinv.current_update hcurrent
  cap_eq := hinv.cap_eq
  buf_eq := hinv.buf_eq
  writers_eq := hinv.writers_eq
  counts := hinv.counts_update ((hinv.counts t).trans hcompleted.symm)
  free := hinv.free
  held := hinv.held_update (by rw [hopen, huncounted]; exact hinv.held t)
  main := mainKnows_update hinv.main hnew hold

/-- Entering the critical section: the open block is empty. -/
theorem inv_lock
    {m : Monitor (Fin c.nThreads)}
    {j : Nat}
    (hinv : Inv c s writers owners openBlock)
    (hpc : s.threads t = .lock j)
    (hm : s.mutex.lock t = some m) :
    Inv c { s.setPc t (.inner j 0) with mutex := m }
      writers owners openBlock := by
  obtain ⟨hfree, rfl⟩ := Monitor.lock_eq_some_iff.mp hm
  obtain ⟨hopen, hlen⟩ := hinv.free hfree
  have hbounded := hinv.bounded t
  have hcount := hinv.counts t
  rw [hpc] at hbounded hcount
  exact
    { guards := hinv.guards.enter hfree rfl trivial
      bounded := hinv.bounded_update ⟨hbounded, Nat.zero_le _⟩
      current := hinv.current_update trivial
      cap_eq := hinv.cap_eq
      buf_eq := hinv.buf_eq
      writers_eq := hinv.writers_eq
      counts := hinv.counts_update hcount
      free := fun h => by cases h
      held := fun u hu => by
        cases hu
        simp [State.setPc, ThreadPc.openLength, ThreadPc.uncounted, hopen, hlen]
      main :=
        mainKnows_update hinv.main (by simp [hpc]) (by simp [hpc]) }

/-- Leaving the critical section: the open block has been closed before. -/
theorem inv_unlock
    {m : Monitor (Fin c.nThreads)}
    {j : Nat}
    (hinv : Inv c s writers owners openBlock)
    (hpc : s.threads t = .unlock j)
    (hm : s.mutex.unlock t = some m) :
    Inv c { s.setPc t (.outer (j + 1)) with mutex := m }
      writers owners openBlock := by
  obtain ⟨hheld, rfl⟩ := Monitor.unlock_eq_some_iff.mp hm
  have hopen := hinv.held t hheld
  have hbounded := hinv.bounded t
  have hcount := hinv.counts t
  rw [hpc] at hopen hbounded hcount
  exact
    { guards := hinv.guards.leave hheld rfl not_false
      bounded := hinv.bounded_update hbounded
      current := hinv.current_update trivial
      cap_eq := hinv.cap_eq
      buf_eq := hinv.buf_eq
      writers_eq := hinv.writers_eq
      counts := hinv.counts_update hcount
      free := fun _ => ⟨hopen.1, hopen.2⟩
      held := fun u hu => by cases hu
      main :=
        mainKnows_update hinv.main (by simp [hpc]) (by simp [hpc]) }

/-- The end of the inner loop closes the block. -/
theorem inv_closeBlock
    {j : Nat}
    (hinv : Inv c s writers owners openBlock)
    (hpc : s.threads t = .inner j c.msgLen) :
    Inv c (s.setPc t (.unlock j)) writers (owners ++ [t]) [] := by
  have hheld := hinv.holder_eq (t := t) (by rw [hpc]; trivial)
  have hopen := hinv.held t hheld
  have hbounded := hinv.bounded t
  have hcount := hinv.counts t
  rw [hpc] at hopen hbounded hcount
  exact
    { guards := hinv.guards.move (by rw [hpc]; exact Iff.rfl)
      bounded := hinv.bounded_update hbounded.1
      current := hinv.current_update trivial
      cap_eq := hinv.cap_eq
      buf_eq := hinv.buf_eq
      writers_eq := by
        rw [hinv.writers_eq, hopen.1]
        simp [block, ThreadPc.openLength]
      counts :=
        forall_update
          (P := fun u pc => (owners ++ [t]).count u = pc.completed c.tries)
          (fun u hu => by
            rw [List.count_append, hinv.counts u,
              List.count_singleton, if_neg (by simpa using Ne.symm hu),
              Nat.add_zero])
          (by simp [hcount, ThreadPc.completed])
      free := fun h => by rw [State.setPc, hheld] at h; cases h
      held := fun u hu => by
        rw [State.setPc, hheld] at hu
        cases hu
        simpa [State.setPc, ThreadPc.openLength, ThreadPc.uncounted]
          using hopen.2
      main :=
        mainKnows_update hinv.main (by simp [hpc]) (by simp [hpc]) }

/-- The thread that writes has room for its character. -/
theorem room_of_write
    {j i : Nat}
    {w : WritePc}
    (hinv : Inv c s writers owners openBlock)
    (hpc : s.threads t = .write j i w) :
    s.srv.len + w.uncounted + 1 ≤ s.srv.cap + w.stored := by
  have hheld := hinv.holder_eq (t := t) (by rw [hpc]; trivial)
  obtain ⟨hopen, hlen⟩ := hinv.held t hheld
  have hbounded := hinv.bounded t
  rw [hpc] at hopen hlen hbounded
  obtain ⟨hj, hi⟩ := hbounded
  have howners : owners.length + 1 ≤ c.nThreads * c.tries :=
    length_owners_lt hinv.counts (fun u => completed_le (hinv.bounded u)) t
      (by rw [hpc]; exact hj)
  have hcap := Nat.mul_le_mul_right c.msgLen howners
  have hwriters := congrArg List.length hinv.writers_eq
  rw [List.length_append, length_blocks, hopen, List.length_replicate]
    at hwriters
  simp only [ThreadPc.openLength, ThreadPc.uncounted] at hlen hwriters
  rw [hinv.cap_eq]
  rw [Nat.add_mul] at hcap
  omega

theorem inv_store
    {j i : Nat}
    (hinv : Inv c s writers owners openBlock)
    (hpc : s.threads t = .write j i (.store s.srv.len)) :
    Inv c
      { s with
        srv := { s.srv with buf := s.srv.buf.set s.srv.len (threadChar t) }
        threads := Function.update s.threads t (.write j i .load) }
      (writers ++ [t]) owners (openBlock ++ [t]) := by
  have hheld := hinv.holder_eq (t := t) (by rw [hpc]; trivial)
  have hroom := room_of_write hinv hpc
  have hopen := hinv.held t hheld
  have hbounded := hinv.bounded t
  have hcount := hinv.counts t
  rw [hpc] at hopen hbounded hcount
  have hlen : s.srv.len = writers.length := hopen.2
  simp only [WritePc.uncounted, WritePc.stored] at hroom
  exact
    { guards := hinv.guards.move (by rw [hpc]; exact Iff.rfl)
      bounded := hinv.bounded_update hbounded
      current := hinv.current_update trivial
      cap_eq := hinv.cap_eq
      buf_eq := by
        have hfits : (writers.map threadChar).length < s.srv.cap := by
          rw [List.length_map]
          omega
        have hset := set_zeroFilled _ (threadChar t) 0 hfits
        rw [List.length_map] at hset
        simpa [hinv.buf_eq, hlen] using hset
      writers_eq := by rw [hinv.writers_eq, List.append_assoc]
      counts := hinv.counts_update hcount
      free := fun h => by
        dsimp only at h
        rw [hheld] at h
        cases h
      held := fun u hu => by
        dsimp only at hu
        rw [hheld] at hu
        cases hu
        simp [ThreadPc.openLength, ThreadPc.uncounted, WritePc.uncounted,
          WritePc.stored, hopen.1, hlen, List.replicate_succ']
      main :=
        mainKnows_update hinv.main (by simp [hpc]) (by simp [hpc]) }

theorem inv_increment
    {j i : Nat}
    (hinv : Inv c s writers owners openBlock)
    (hpc : s.threads t = .write j i (.increment s.srv.len)) :
    Inv c
      { s with
        srv := { s.srv with len := s.srv.len + 1 }
        threads := Function.update s.threads t (.write j i (.ret 0)) }
      writers owners openBlock := by
  have hheld := hinv.holder_eq (t := t) (by rw [hpc]; trivial)
  have hopen := hinv.held t hheld
  have hbounded := hinv.bounded t
  have hcount := hinv.counts t
  rw [hpc] at hopen hbounded hcount
  exact
    { guards := hinv.guards.move (by rw [hpc]; exact Iff.rfl)
      bounded := hinv.bounded_update hbounded
      current :=
        forall_update
          (fun u hu => current_of_outside fun hin =>
            -- the others are outside, so they have read nothing
            hu (hinv.guards.unique hin (by rw [hpc]; trivial)))
          rfl
      cap_eq := hinv.cap_eq
      buf_eq := hinv.buf_eq
      writers_eq := hinv.writers_eq
      counts := hinv.counts_update hcount
      free := fun h => by
        dsimp only at h
        rw [hheld] at h
        cases h
      held := fun u hu => by
        dsimp only at hu
        rw [hheld] at hu
        cases hu
        simpa [ThreadPc.openLength, ThreadPc.uncounted, WritePc.uncounted,
          WritePc.stored] using hopen
      main :=
        mainKnows_update hinv.main (by simp [hpc]) (by simp [hpc]) }

theorem storing_eq_none
    (h : ∀ j i k, s.threads t ≠ .write j i (.store k)) :
    storing s (.thread t) = none := by
  unfold storing
  dsimp only
  split
  · exact absurd ‹_› (h _ _ _)
  · rfl

theorem recordWriter_eq_self
    {a : Label c}
    (h : storing s a = none) :
    recordWriter s a writers = writers := by
  simp [recordWriter, h]

theorem threadWrite_of_not_ret
    {j i : Nat}
    {w : WritePc}
    (hw : ∀ r, w ≠ .ret r) :
    threadWrite s t j i w =
      { s with
        srv := (w.step s.srv (threadChar t)).1
        threads :=
          Function.update s.threads t
            (.write j i (w.step s.srv (threadChar t)).2) } := by
  cases w with
  | ret r => exact absurd rfl (hw r)
  | _ => rfl

/-- One step of a call of `write_to_server`. -/
theorem inv_threadWrite
    {j i : Nat}
    {w : WritePc}
    (hfits : c.nThreads * c.tries * c.msgLen < sizeMod)
    (hinv : Inv c s writers owners openBlock)
    (hpc : s.threads t = .write j i w) :
    ∃ openBlock',
      Inv c (threadWrite s t j i w)
        (recordWriter s (.thread t) writers) owners openBlock' := by
  have hbounded := hinv.bounded t
  have hcurrent := hinv.current t
  rw [hpc] at hbounded hcurrent
  by_cases hret : ∃ r, w = .ret r
  · obtain ⟨r, rfl⟩ := hret
    rw [recordWriter_eq_self (storing_eq_none (by simp [hpc]))]
    refine ⟨openBlock, inv_setPc hinv ?_ ?_ ?_ hbounded trivial ?_ ?_ ?_⟩ <;>
      rw [hpc]
    · exact fun h => by cases h
    · exact fun h => by cases h
    · exact Iff.rfl
    · rfl
    · rfl
    · rfl
  · rw [threadWrite_of_not_ret (fun r hr => hret ⟨r, hr⟩)]
    rcases WritePc.step_cases (threadChar t) hcurrent
        (room_of_write hinv hpc) (hinv.cap_eq ▸ hfits) with
      ⟨hstore, w', hw, hcur, huncounted, hstored⟩ | ⟨rfl, hw⟩ | ⟨rfl, hw⟩
    · rw [recordWriter_eq_self (storing_eq_none (by simp [hpc, hstore])), hw]
      refine ⟨openBlock, inv_setPc hinv ?_ ?_ ?_ hbounded hcur ?_ ?_ ?_⟩ <;>
        rw [hpc]
      · exact fun h => by cases h
      · exact fun h => by cases h
      · exact Iff.rfl
      · rfl
      · simp only [ThreadPc.openLength, hstored]
      · simp only [ThreadPc.uncounted, huncounted]
    · have hrecord : recordWriter s (.thread t) writers = writers ++ [t] := by
        simp [recordWriter, storing, hpc]
      rw [hrecord, hw]
      exact ⟨openBlock ++ [t], inv_store hinv hpc⟩
    · rw [recordWriter_eq_self (storing_eq_none (by simp [hpc])), hw]
      exact ⟨openBlock, inv_increment hinv hpc⟩

/-- One step of a thread. -/
theorem inv_threadNext
    {s' : State c}
    (hfits : c.nThreads * c.tries * c.msgLen < sizeMod)
    (hinv : Inv c s writers owners openBlock)
    (h : threadNext s t = some s') :
    ∃ owners' openBlock',
      Inv c s' (recordWriter s (.thread t) writers) owners' openBlock' := by
  have hbounded := hinv.bounded t
  have hquiet :
      (∀ j i k, s.threads t ≠ .write j i (.store k)) →
      recordWriter s (.thread t) writers = writers :=
    fun hpc => recordWriter_eq_self (storing_eq_none hpc)
  unfold threadNext at h
  cases hpc : s.threads t with
  | notCreated =>
      rw [hpc] at h
      cases h
  | outer j =>
      rw [hpc] at h hbounded
      cases h
      rw [hquiet (by simp [hpc])]
      refine ⟨owners, openBlock, ?_⟩
      by_cases hj : j < c.tries
      · rw [if_pos hj]
        refine inv_setPc hinv ?_ ?_ ?_ hj trivial ?_ ?_ ?_ <;>
          simp [hpc, InCriticalSection, ThreadPc.completed,
            ThreadPc.openLength, ThreadPc.uncounted]
      · rw [if_neg hj]
        have hlast : j = c.tries :=
          Nat.le_antisymm hbounded (Nat.le_of_not_lt hj)
        refine inv_setPc hinv ?_ ?_ ?_ trivial trivial ?_ ?_ ?_ <;>
          simp [hpc, InCriticalSection, ThreadPc.completed,
            ThreadPc.openLength, ThreadPc.uncounted, hlast]
  | lock j =>
      rw [hpc] at h
      rw [hquiet (by simp [hpc])]
      cases hm : s.mutex.lock t with
      | none =>
          rw [hm] at h
          cases h
      | some m =>
          rw [hm] at h
          cases h
          exact ⟨owners, openBlock, inv_lock hinv hpc hm⟩
  | inner j i =>
      rw [hpc] at h hbounded
      cases h
      rw [hquiet (by simp [hpc])]
      by_cases hi : i < c.msgLen
      · rw [if_pos hi]
        refine ⟨owners, openBlock,
          inv_setPc hinv ?_ ?_ ?_ ⟨hbounded.1, hi⟩ trivial ?_ ?_ ?_⟩ <;>
          simp [hpc, InCriticalSection, ThreadPc.completed,
            ThreadPc.openLength, ThreadPc.uncounted, WritePc.stored,
            WritePc.uncounted]
      · rw [if_neg hi]
        have hlast : i = c.msgLen :=
          Nat.le_antisymm hbounded.2 (Nat.le_of_not_lt hi)
        subst hlast
        exact ⟨owners ++ [t], [], inv_closeBlock hinv hpc⟩
  | write j i w =>
      rw [hpc] at h
      cases h
      exact ⟨owners, inv_threadWrite hfits hinv hpc⟩
  | yield j i =>
      rw [hpc] at h hbounded
      cases h
      rw [hquiet (by simp [hpc])]
      refine ⟨owners, openBlock,
        inv_setPc hinv ?_ ?_ ?_ ⟨hbounded.1, hbounded.2⟩ trivial ?_ ?_ ?_⟩ <;>
        simp [hpc, InCriticalSection, ThreadPc.completed,
          ThreadPc.openLength, ThreadPc.uncounted]
  | unlock j =>
      rw [hpc] at h
      rw [hquiet (by simp [hpc])]
      cases hm : s.mutex.unlock t with
      | none =>
          rw [hm] at h
          cases h
      | some m =>
          rw [hm] at h
          cases h
          exact ⟨owners, openBlock, inv_unlock hinv hpc hm⟩
  | returned =>
      rw [hpc] at h
      cases h

/-- `pthread_create` starts a thread that nobody has started before. -/
theorem inv_create
    {i : Nat}
    (hinv : Inv c s writers owners openBlock)
    (hmain : s.main = .create i)
    (hi : i < c.nThreads) :
    Inv c { s.setPc ⟨i, hi⟩ (.outer 0) with main := .create (i + 1) }
      writers owners openBlock := by
  have hknows := hinv.main
  rw [hmain] at hknows
  have hpc : s.threads ⟨i, hi⟩ = .notCreated :=
    hknows ⟨i, hi⟩ (Nat.le_refl i)
  have hcount := hinv.counts ⟨i, hi⟩
  have hheld := hinv.held ⟨i, hi⟩
  rw [hpc] at hcount hheld
  exact
    { guards := hinv.guards.move (by rw [hpc]; exact Iff.rfl)
      bounded := hinv.bounded_update (Nat.zero_le _)
      current := hinv.current_update trivial
      cap_eq := hinv.cap_eq
      buf_eq := hinv.buf_eq
      writers_eq := hinv.writers_eq
      counts := hinv.counts_update hcount
      free := hinv.free
      held := hinv.held_update hheld
      main := fun u hu => by
        have hne : u ≠ ⟨i, hi⟩ := by
          rintro rfl
          simp at hu
        exact (Function.update_of_ne hne _ _).trans (hknows u (by omega)) }

theorem inv_mainPc
    {main : MainPc}
    (hinv : Inv c s writers owners openBlock)
    (hmain : MainKnows s.threads main) :
    Inv c { s with main := main } writers owners openBlock :=
  { hinv with main := hmain }

/-- One step of `main`. -/
theorem inv_mainNext
    {s' : State c}
    (hinv : Inv c s writers owners openBlock)
    (h : mainNext s = some s') :
    Inv c s' writers owners openBlock := by
  have hknows := hinv.main
  unfold mainNext at h
  cases hmain : s.main with
  | create i =>
      rw [hmain] at h hknows
      dsimp only at h
      split_ifs at h with hi
      · cases h
        exact inv_create hinv hmain hi
      · cases h
        exact inv_mainPc hinv (fun u hu => absurd hu (Nat.not_lt_zero _))
  | join i =>
      rw [hmain] at h hknows
      dsimp only at h
      split_ifs at h with hi hreturned
      · cases h
        refine inv_mainPc hinv (fun u hu => ?_)
        rcases Nat.lt_succ_iff_lt_or_eq.mp hu with hlt | heq
        · exact hknows u hlt
        · have hu' : u = ⟨i, hi⟩ := Fin.ext heq
          rw [hu']
          exact hreturned
      · cases h
        refine inv_mainPc hinv (fun u => hknows u ?_)
        exact Nat.lt_of_lt_of_le u.isLt (Nat.le_of_not_lt hi)
  | dumpBuff =>
      rw [hmain] at h
      cases h

/-- In every run the writers are a list of blocks and an open block. -/
theorem inv_of_reachable
    (hfits : c.nThreads * c.tries * c.msgLen < sizeMod)
    (h : (systemWithWriters c).Reachable (s, writers)) :
    ∃ owners openBlock, Inv c s writers owners openBlock := by
  refine h.invariant
    (I := fun p => ∃ owners openBlock, Inv c p.1 p.2 owners openBlock) ?_ ?_
  · rintro ⟨s, writers⟩ ⟨hs, hwriters⟩
    cases hs
    cases hwriters
    exact ⟨[], [], inv_start hfits⟩
  · rintro ⟨s, writers⟩ (_ | t) ⟨s', writers'⟩ ⟨owners, openBlock, hinv⟩
      ⟨⟨-, hnext⟩, hrecord⟩
    · dsimp only at hrecord
      rw [hrecord, recordWriter_eq_self rfl]
      exact ⟨owners, openBlock, inv_mainNext hinv hnext⟩
    · dsimp only at hrecord
      rw [hrecord]
      exact inv_threadNext hfits hinv hnext

end Preservation

section Results

variable {c : Constants} {s : State c}
variable {writers owners openBlock : List (Fin c.nThreads)}

theorem innerLoop_critical
    {pc : ThreadPc}
    (h : InInnerLoop pc) :
    InCriticalSection pc := by
  cases pc <;> trivial

/-- After the joins every character belongs to a complete block. -/
theorem joined_blocks
    (hinv : Inv c s writers owners openBlock)
    (hmain : s.main = .dumpBuff) :
    writers = owners.flatMap (block c) ∧
    s.srv.len = writers.length ∧
    owners.length = c.nThreads * c.tries ∧
    ∀ t, owners.count t = c.tries := by
  have hreturned := hinv.main
  rw [hmain] at hreturned
  have hfree : s.mutex.holder = none := by
    cases hheld : s.mutex.holder with
    | none => rfl
    | some t =>
        have hin := (hinv.guards t).mpr hheld
        rw [hreturned t] at hin
        exact hin.elim
  obtain ⟨hopen, hlen⟩ := hinv.free hfree
  have hcount : ∀ t, owners.count t = c.tries := by
    intro t
    rw [hinv.counts t, hreturned t]
    rfl
  refine ⟨?_, hlen, ?_, hcount⟩
  · rw [hinv.writers_eq, hopen, List.append_nil]
  · rw [length_eq_sum_count owners, Finset.sum_congr rfl fun u _ => hcount u]
    exact sum_const_fin c.nThreads c.tries

/--
`mutex-example.c` for all constants and all interleavings: no call of
`write_to_server` fails, no two threads are in the inner loop together, and at
the end the buffer is full and consists of blocks, `tries` from each thread.
-/
theorem buffer_of_blocks
    (c : Config)
    {s : State c}
    {writers : List (Fin c.nThreads)}
    (h : (systemWithWriters c).Reachable (s, writers)) :
    (∀ t j i r, s.threads t = .write j i (.ret r) → r ≠ -1) ∧
    (∀ t u, InInnerLoop (s.threads t) → InInnerLoop (s.threads u) → t = u) ∧
    (s.main = .dumpBuff →
      s.srv.len = c.nThreads * c.tries * c.msgLen ∧
      s.srv.cap = c.nThreads * c.tries * c.msgLen ∧
      ∃ owners : List (Fin c.nThreads),
        owners.length = c.nThreads * c.tries ∧
        (∀ t, owners.count t = c.tries) ∧
        writers = owners.flatMap (fun t => List.replicate c.msgLen t) ∧
        s.srv.buf =
          owners.flatMap
            (fun t => List.replicate c.msgLen (threadChar t))) := by
  have hfits : c.nThreads * c.tries * c.msgLen < sizeMod :=
    Nat.lt_of_lt_of_le c.cap_lt (Nat.sub_le _ _)
  obtain ⟨owners, openBlock, hinv⟩ := inv_of_reachable hfits h
  refine ⟨?_, ?_, ?_⟩
  · intro t j i r hpc hr
    have hcurrent := hinv.current t
    rw [hpc] at hcurrent
    have hzero : r = 0 := hcurrent
    omega
  · intro t u ht hu
    exact hinv.guards.unique (innerLoop_critical ht) (innerLoop_critical hu)
  · intro hmain
    obtain ⟨hwriters, hlen, howners, hcount⟩ := joined_blocks hinv hmain
    have hlength : writers.length = c.nThreads * c.tries * c.msgLen := by
      rw [hwriters, length_blocks, howners]
    refine ⟨hlen.trans hlength, hinv.cap_eq, owners, howners, hcount,
      hwriters, ?_⟩
    rw [hinv.buf_eq, hinv.cap_eq, hlength, Nat.sub_self, hwriters, map_blocks]
    simp

/-- Two threads that write one character each. -/
def twoCharacters : Config where
  nThreads := 2
  tries := 1
  msgLen := 1
  cap_lt := by decide

/-- The threads run one after the other, and then `main` joins them. -/
def twoCharactersSchedule : List (Label twoCharacters) :=
  let run (t : Fin 2) : List (Label twoCharacters) :=
    List.replicate 13 (.thread t)
  List.replicate 3 .main ++ run 1 ++ run 0 ++ List.replicate 3 .main

theorem buffer_of_blocks_twoCharacters :
    ∃ s writers,
      (systemWithWriters twoCharacters).Reachable (s, writers) ∧
      s.main = .dumpBuff ∧
      s.srv.len = 2 := by
  have hstart : (system twoCharacters).Reachable (start twoCharacters) :=
    .init rfl
  obtain ⟨s, hs, htest⟩ :=
    TransitionSystem.exists_reachable_of_exec twoCharactersSchedule
      (fun s => s.main = .dumpBuff) hstart (by decide) (by decide)
  have hmain : s.main = .dumpBuff := of_decide_eq_true htest
  obtain ⟨writers, hwriters⟩ := hs.exists_history
  exact ⟨s, writers, hwriters, hmain,
    ((buffer_of_blocks twoCharacters hwriters).2.2 hmain).1⟩

end Results

end MutexExample
end Threads
end OsSeminars
