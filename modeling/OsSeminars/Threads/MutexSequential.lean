import OsSeminars.Threads.MutexBlocks

/-!
# 15-threads/mutex-example.c: one thread after another

Among the runs of the program are those where `main` creates all threads, then
every thread runs alone until it returns, and then `main` joins them. Such a run
exists for all constants and for every order of the threads. Its calls of
`write_to_server` are whole calls, so its server is the one that these calls
leave behind.
-/

namespace OsSeminars
namespace Threads
namespace MutexExample

open Foundation
open TransitionSystem (Runs runs_rounds)

section OneThread

variable {c : Constants}

/-- The state with another server, and with one thread somewhere else. -/
def State.put
    (s : State c)
    (t : Fin c.nThreads)
    (pc : ThreadPc)
    (srv : Server) : State c :=
  { s.setPc t pc with srv := srv }

variable {s : State c} {t : Fin c.nThreads} {srv : Server}

@[simp] theorem threads_put
    {pc : ThreadPc} :
    (s.put t pc srv).threads t = pc :=
  Function.update_self ..

@[simp] theorem setPc_put
    {pc pc' : ThreadPc} :
    (s.put t pc srv).setPc t pc' = s.put t pc' srv := by
  simp [State.put, State.setPc]

/-- One step of a thread. -/
theorem runs_of_threadNext
    {s' : State c}
    (h : threadNext s t = some s') :
    (system c).Runs s s' :=
  Runs.head (a := .thread t) ⟨trivial, h⟩ Runs.refl

theorem threadWrite_put
    {j i : Nat}
    {w : WritePc}
    (hw : ∀ r, w ≠ .ret r) :
    threadWrite (s.put t (.write j i w) srv) t j i w =
      s.put t (.write j i (w.step srv (threadChar t)).2)
        (w.step srv (threadChar t)).1 := by
  rw [threadWrite_of_not_ret hw]
  simp [State.put, State.setPc]

/-- Up to `n` steps of one call of `write_to_server`. -/
theorem runs_steps
    (j i n : Nat)
    (p : Server × WritePc) :
    (system c).Runs (s.put t (.write j i p.2) p.1)
      (s.put t (.write j i (WritePc.steps (threadChar t) n p).2)
        (WritePc.steps (threadChar t) n p).1) := by
  induction n generalizing p with
  | zero =>
      exact Runs.refl
  | succ n ih =>
      obtain ⟨srv, w⟩ := p
      by_cases hret : ∃ r, w = .ret r
      · obtain ⟨r, rfl⟩ := hret
        exact ih (srv, .ret r)
      · have hw : ∀ r, w ≠ .ret r := fun r hr => hret ⟨r, hr⟩
        refine (runs_of_threadNext (t := t) ?_).trans
          (ih (w.step srv (threadChar t)))
        simp only [threadNext, threads_put, threadWrite_put hw]

/-- One round of the loop over `i`. -/
theorem runs_innerRound
    {j i : Nat}
    (hi : i < c.msgLen) :
    (system c).Runs (s.put t (.inner j i) srv)
      (s.put t (.inner j (i + 1)) (writeToServer srv (threadChar t)).2) := by
  have henter :
      threadNext (s.put t (.inner j i) srv) t =
        some (s.put t (.write j i .check) srv) := by
    simp [threadNext, hi]
  have hcall := runs_steps (s := s) (t := t) j i 5 (srv, .check)
  rw [steps_eq_writeToServer] at hcall
  generalize writeToServer srv (threadChar t) = p at hcall ⊢
  have hreturn :
      threadNext (s.put t (.write j i (.ret p.1)) p.2) t =
        some (s.put t (.yield j i) p.2) := by
    simp [threadNext, threadWrite]
  have hyield :
      threadNext (s.put t (.yield j i) p.2) t =
        some (s.put t (.inner j (i + 1)) p.2) := by
    simp [threadNext]
  exact (runs_of_threadNext henter).trans
    (hcall.trans
      ((runs_of_threadNext hreturn).trans (runs_of_threadNext hyield)))

/-- The loop over `i`. -/
theorem runs_innerLoop
    (j : Nat) :
    (system c).Runs (s.put t (.inner j 0) srv)
      (s.put t (.inner j c.msgLen)
        (writeAll srv (List.replicate c.msgLen (threadChar t)))) := by
  refine runs_rounds
    (f := fun i =>
      s.put t (.inner j i) (writeAll srv (List.replicate i (threadChar t))))
    fun i hi => ?_
  rw [writeAll_replicate_succ]
  exact runs_innerRound hi

/-- One message, from `pthread_mutex_lock` to `pthread_mutex_unlock`. -/
theorem runs_outerRound
    (srv : Server)
    {j : Nat}
    (hfree : s.mutex.holder = none)
    (hj : j < c.tries) :
    (system c).Runs (s.put t (.outer j) srv)
      (s.put t (.outer (j + 1))
        (writeAll srv (List.replicate c.msgLen (threadChar t)))) := by
  let locked : State c := { s with mutex := { s.mutex with holder := some t } }
  let written := writeAll srv (List.replicate c.msgLen (threadChar t))
  have henter :
      threadNext (s.put t (.outer j) srv) t = some (s.put t (.lock j) srv) := by
    simp [threadNext, hj]
  have hlock :
      threadNext (s.put t (.lock j) srv) t =
        some (locked.put t (.inner j 0) srv) := by
    have hm :
        (s.put t (.lock j) srv).mutex.lock t =
          some { s.mutex with holder := some t } :=
      Monitor.lock_eq_some_iff.mpr ⟨hfree, rfl⟩
    simp only [threadNext, threads_put, hm, setPc_put]
    rfl
  have hclose :
      threadNext (locked.put t (.inner j c.msgLen) written) t =
        some (locked.put t (.unlock j) written) := by
    simp [threadNext]
  have hunlock :
      threadNext (locked.put t (.unlock j) written) t =
        some (s.put t (.outer (j + 1)) written) := by
    have hm :
        (locked.put t (.unlock j) written).mutex.unlock t = some s.mutex := by
      refine Monitor.unlock_eq_some_iff.mpr ⟨rfl, ?_⟩
      rw [← hfree]
      rfl
    simp only [threadNext, threads_put, hm, setPc_put]
    rfl
  exact (runs_of_threadNext henter).trans
    ((runs_of_threadNext hlock).trans
      ((runs_innerLoop j).trans
        ((runs_of_threadNext hclose).trans (runs_of_threadNext hunlock))))

/-- All characters that a thread writes. -/
def characters (t : Fin c.nThreads) : List UInt8 :=
  List.replicate (c.tries * c.msgLen) (threadChar t)

/-- A whole thread. -/
theorem runs_thread
    (srv : Server)
    (hfree : s.mutex.holder = none) :
    (system c).Runs (s.put t (.outer 0) srv)
      (s.put t .returned (writeAll srv (characters t))) := by
  have hloop :
      (system c).Runs (s.put t (.outer 0) srv)
        (s.put t (.outer c.tries) (writeAll srv (characters t))) := by
    have hrounds :=
      runs_rounds (T := system c) (n := c.tries)
        (f := fun j =>
          s.put t (.outer j)
            (writeAll srv (List.replicate (j * c.msgLen) (threadChar t))))
        fun j hj => by
          have hround :=
            runs_outerRound (t := t)
              (writeAll srv (List.replicate (j * c.msgLen) (threadChar t))) hfree hj
          rwa [← writeAll_append, List.replicate_append_replicate,
            ← Nat.succ_mul] at hround
    simpa [characters, writeAll] using hrounds
  have hreturn :
      threadNext (s.put t (.outer c.tries) (writeAll srv (characters t))) t =
        some (s.put t .returned (writeAll srv (characters t))) := by
    simp [threadNext]
  exact hloop.trans (runs_of_threadNext hreturn)

end OneThread

section AllThreads

variable {c : Constants}

/-- Threads that run one after the other, each of them alone. -/
theorem runs_threads
    {order : List (Fin c.nThreads)}
    (hnodup : order.Nodup)
    {s : State c}
    (hfree : s.mutex.holder = none)
    (hready : ∀ t ∈ order, s.threads t = .outer 0) :
    (system c).Runs s
      { s with
        srv := writeAll s.srv (order.flatMap characters)
        threads := fun u => if u ∈ order then .returned else s.threads u } := by
  induction order generalizing s with
  | nil =>
      simpa [writeAll] using Runs.refl
  | cons t order ih =>
      obtain ⟨hfresh, hnodup⟩ := List.nodup_cons.mp hnodup
      have hfirst := runs_thread (t := t) s.srv hfree
      have hstart : s.put t (.outer 0) s.srv = s := by
        rw [← hready t List.mem_cons_self]
        simp [State.put, State.setPc]
      rw [hstart] at hfirst
      have hothers :
          ∀ u ∈ order,
            (s.put t .returned (writeAll s.srv (characters t))).threads u =
              .outer 0 := by
        intro u hu
        have hne : u ≠ t := fun h => hfresh (h ▸ hu)
        exact (Function.update_of_ne hne _ _).trans
          (hready u (List.mem_cons_of_mem t hu))
      have hrest :=
        ih hnodup (s := s.put t .returned (writeAll s.srv (characters t)))
          hfree hothers
      have hend :
          (fun u =>
              if u ∈ order then .returned
              else (s.put t .returned (writeAll s.srv (characters t))).threads u) =
            fun u => if u ∈ t :: order then .returned else s.threads u := by
        funext u
        by_cases hu : u = t
        · subst hu
          simp
        · simp [State.put, State.setPc, hu]
      rw [hend] at hrest
      rw [List.flatMap_cons, writeAll_append]
      exact hfirst.trans hrest

theorem runs_of_mainNext
    {s s' : State c}
    (h : mainNext s = some s') :
    (system c).Runs s s' :=
  Runs.head (a := .main) ⟨trivial, h⟩ Runs.refl

/-- `main` creates all threads before the first of them moves. -/
theorem runs_create
    (c : Constants) :
    (system c).Runs (start c)
      { start c with threads := fun _ => .outer 0, main := .join 0 } := by
  have hrounds :=
    runs_rounds (T := system c) (n := c.nThreads)
      (f := fun i =>
        { start c with
          threads := fun u => if u.val < i then .outer 0 else .notCreated
          main := .create i })
      fun i hi => runs_of_mainNext (by
        simp only [mainNext, hi, dif_pos, State.setPc, Option.some.injEq,
          State.mk.injEq, true_and, and_true]
        funext u
        by_cases hu : u = ⟨i, hi⟩
        · rw [hu, Function.update_self]
          exact (if_pos (Nat.lt_succ_self i)).symm
        · have hne : u.val ≠ i := fun heq => hu (Fin.ext heq)
          rw [Function.update_of_ne hu]
          exact if_congr (by omega) rfl rfl)
  have hlast :
      mainNext
          { start c with
            threads := fun u : Fin c.nThreads =>
              if u.val < c.nThreads then .outer 0 else .notCreated
            main := .create c.nThreads } =
        some { start c with threads := fun _ => .outer 0, main := .join 0 } := by
    simp [mainNext]
  simpa [start] using hrounds.trans (runs_of_mainNext hlast)

/-- `main` joins threads that have all returned. -/
theorem runs_join
    {s : State c}
    (hreturned : ∀ t, s.threads t = .returned) :
    (system c).Runs { s with main := .join 0 } { s with main := .dumpBuff } := by
  have hrounds :=
    runs_rounds (T := system c) (n := c.nThreads)
      (f := fun i => { s with main := .join i })
      fun i hi => runs_of_mainNext (by simp [mainNext, hi, hreturned])
  have hlast :
      mainNext { s with main := .join c.nThreads } =
        some { s with main := .dumpBuff } := by
    simp [mainNext]
  exact hrounds.trans (runs_of_mainNext hlast)

/-- Whatever the order, some run ends with the server that the threads leave
when they run one after the other in this order. -/
theorem exists_sequential_run
    {order : List (Fin c.nThreads)}
    (hnodup : order.Nodup)
    (hall : ∀ t, t ∈ order) :
    ∃ s : State c,
      (system c).Reachable s ∧
      s.main = .dumpBuff ∧
      s.srv = writeAll (start c).srv (order.flatMap characters) := by
  let created : State c :=
    { start c with threads := fun _ => .outer 0, main := .join 0 }
  have hthreads :=
    runs_threads (s := created) hnodup rfl fun _ _ => rfl
  have hjoin :=
    runs_join (c := c)
      (s :=
        { created with
          srv := writeAll created.srv (order.flatMap characters)
          threads := fun u => if u ∈ order then .returned else .outer 0 })
      fun t => if_pos (hall t)
  have hstart : (system c).Reachable (start c) :=
    .init rfl
  exact ⟨_, hstart.runs ((runs_create c).trans (hthreads.trans hjoin)), rfl, rfl⟩

end AllThreads

end MutexExample
end Threads
end OsSeminars
