import OsSeminars.Foundation.MachineInt
import OsSeminars.Foundation.ScanInt
import OsSeminars.Foundation.Termination
import OsSeminars.Foundation.TransitionSystem

/-!
# 15-threads/simple-create-join.c

Every thread reads a number, creates the next thread, waits for it and prints its own
number. So the numbers come out in the opposite order. Nothing but the calls of
`pthread_join` keeps the threads apart.

The id of a thread is its place in the order of creation. The calls of `scanf` and
`printf` have a beginning and an end, between which other threads may move; their effect
is that of the end. A label says who moves, and what a call of the thread library
returns.
-/

namespace OsSeminars
namespace Threads
namespace CreateJoin

open Foundation
open ScanInt (scanInt numbers)

/-- The program points of `thread_func`, with the variables that hold a value there. -/
inductive ThreadFunc
  | scanf
  /-- inside of `scanf` -/
  | scanning
  | pthreadCreate (val : Int)
  | pthreadJoin (val : Int) (nextThread : Nat)
  | printf (val : Int)
  /-- inside of `printf` -/
  | printing (val : Int)
  | returned
  deriving DecidableEq

/-- The program points of `main`. -/
inductive Main
  | pthreadCreate
  | pthreadJoin (thread : Nat)
  | return0
  deriving DecidableEq

structure State where
  main : Main
  threads : List ThreadFunc
  stdin : List UInt8
  output : List String
  /-- what `perror` has been called with -/
  errors : List String
  exitStatus : Option Int
  deriving DecidableEq

/-- Who moves, and what a call of `pthread_create` or `pthread_join` returns. -/
inductive Label
  | main (result : Int)
  | thread (i : Nat) (result : Int)
  deriving DecidableEq

/-- What the calls of the thread library return. -/
def Label.result :
    Label → Int
  | .main result => result
  | .thread _ result => result

def start
    (stdin : List UInt8) :
    State where
  main := .pthreadCreate
  threads := []
  stdin := stdin
  output := []
  errors := []
  exitStatus := none

/-- `perror(..)` and `exit(1)`. -/
def State.fail
    (s : State)
    (call : String) :
    State :=
  { s with errors := s.errors ++ [call], exitStatus := some 1 }

def mainNext
    (s : State)
    (result : Int) :
    Option State :=
  match s.main with
  | .pthreadCreate =>
      if result ≠ 0 then some (s.fail "pthread_create")
      else
        some { s with
          threads := s.threads ++ [.scanf]
          main := .pthreadJoin s.threads.length }
  | .pthreadJoin thread =>
      if result ≠ 0 then some (s.fail "pthread_join")
      else if s.threads[thread]? = some .returned then some { s with main := .return0 }
      else none
  | .return0 => some { s with exitStatus := some 0 }

/-- `printf("%d ", val)`. -/
def printed
    (val : Int) :
    String :=
  toString val ++ " "

/-- One step of the thread `i`, which is at the point `f`. -/
def threadNext
    (s : State)
    (i : Nat)
    (result : Int) :
    ThreadFunc → Option State
  | .scanf => some { s with threads := s.threads.set i .scanning }
  | .scanning =>
      match scanInt s.stdin with
      | .number value rest =>
          some { s with
            threads := s.threads.set i (.pthreadCreate (toInt32 value))
            stdin := rest }
      | .noMatch rest => some { s with threads := s.threads.set i .returned, stdin := rest }
      | .eof => some { s with threads := s.threads.set i .returned, stdin := [] }
  | .pthreadCreate val =>
      if result ≠ 0 then some (s.fail "pthread_create")
      else
        some { s with
          threads := s.threads.set i (.pthreadJoin val s.threads.length) ++ [.scanf] }
  | .pthreadJoin val nextThread =>
      if result ≠ 0 then some (s.fail "pthread_join")
      else if s.threads[nextThread]? = some .returned then
        some { s with threads := s.threads.set i (.printf val) }
      else none
  | .printf val => some { s with threads := s.threads.set i (.printing val) }
  | .printing val =>
      some { s with
        threads := s.threads.set i .returned
        output := s.output ++ [printed val] }
  | .returned => none

/-- One step, as long as the process has not exited. -/
def next
    (s : State)
    (a : Label) :
    Option State :=
  if s.exitStatus.isSome then none
  else
    match a with
    | .main result => mainNext s result
    | .thread i result =>
        match s.threads[i]? with
        | none => none
        | some f => threadNext s i result f

/-- The program on a standard input, where no call of the thread library fails. -/
def system
    (stdin : List UInt8) :
    TransitionSystem State Label :=
  .ofProgram (fun s => s = start stdin) (fun _ a => a.result = 0) next

/-- The integers that can be scanned from the input before the first failure. -/
def values
    (stdin : List UInt8) :
    List Int :=
  (numbers stdin).map toInt32

/-- The thread is inside of a call that reads or prints. -/
def ThreadFunc.busy :
    ThreadFunc → Bool
  | .scanning => true
  | .printing _ => true
  | _ => false

section Progress

variable {s t : State} {i : Nat} {f : ThreadFunc}

/-- How many steps a thread takes, together with the threads it creates, as far as they
are not paid for by the input. -/
def ThreadFunc.stepsLeft :
    ThreadFunc → Nat
  | .pthreadCreate _ => 6
  | .pthreadJoin .. => 3
  | .scanf => 2
  | .printf _ => 2
  | .scanning => 1
  | .printing _ => 1
  | .returned => 0

def Main.stepsLeft :
    Main → Nat
  | .pthreadCreate => 4
  | .pthreadJoin _ => 1
  | .return0 => 0

/-- A bound of the number of steps; each number of the input pays for six. -/
def remaining
    (s : State) :
    Nat :=
  (if s.exitStatus.isSome then 0 else 1) + s.main.stepsLeft +
    (s.threads.map ThreadFunc.stepsLeft).sum + 6 * s.stdin.length

theorem remaining_fail_lt
    (hrunning : s.exitStatus.isSome = false)
    (call : String) :
    remaining (s.fail call) < remaining s := by
  simp [remaining, State.fail, hrunning]

theorem remaining_mainNext_lt
    (hrunning : s.exitStatus.isSome = false)
    {result : Int}
    (hnext : mainNext s result = some t) :
    remaining t < remaining s := by
  rw [mainNext] at hnext
  split at hnext
  · next hmain =>
      split_ifs at hnext
      · cases hnext
        exact remaining_fail_lt hrunning _
      · cases hnext
        simp [remaining, hrunning, hmain, Main.stepsLeft, ThreadFunc.stepsLeft]
        omega
  · next hmain =>
      split_ifs at hnext
      · cases hnext
        exact remaining_fail_lt hrunning _
      · cases hnext
        simp [remaining, hrunning, hmain, Main.stepsLeft]
  · cases hnext
    simp [remaining, hrunning]

/-- A thread has moved on, and nothing else has changed. -/
theorem remaining_set_lt
    (hi : s.threads[i]? = some f)
    (g : ThreadFunc)
    (hg : g.stepsLeft < f.stepsLeft)
    (output : List String) :
    remaining { s with threads := s.threads.set i g, output := output } < remaining s := by
  have hsum := sum_map_set_lt hi hg
  simp only [remaining]
  omega

/-- A number takes at least one character of the input. -/
theorem remaining_scanning_lt
    (hi : s.threads[i]? = some .scanning)
    {result : Int}
    (hnext : threadNext s i result .scanning = some t) :
    remaining t < remaining s := by
  have hreturn := sum_map_set hi ThreadFunc.stepsLeft .returned
  simp only [threadNext] at hnext
  split at hnext
  · next value rest hscan =>
      cases hnext
      have hinput := ScanInt.length_lt_of_scanInt hscan
      have hcreate := sum_map_set hi ThreadFunc.stepsLeft (.pthreadCreate (toInt32 value))
      simp only [remaining, ThreadFunc.stepsLeft] at hcreate ⊢
      omega
  · next rest hscan =>
      cases hnext
      have hinput := ScanInt.length_le_of_noMatch hscan
      simp only [remaining, ThreadFunc.stepsLeft] at hreturn ⊢
      omega
  · cases hnext
    simp only [remaining, ThreadFunc.stepsLeft, List.length_nil] at hreturn ⊢
    omega

theorem remaining_threadNext_lt
    (hrunning : s.exitStatus.isSome = false)
    (hi : s.threads[i]? = some f)
    {result : Int}
    (hnext : threadNext s i result f = some t) :
    remaining t < remaining s := by
  cases f with
  | scanf =>
      cases hnext
      exact remaining_set_lt hi .scanning (Nat.lt_succ_self 1) s.output
  | scanning =>
      exact remaining_scanning_lt hi hnext
  | pthreadCreate val =>
      simp only [threadNext] at hnext
      split_ifs at hnext
      · cases hnext
        exact remaining_fail_lt hrunning _
      · cases hnext
        have hjoin := sum_map_set hi ThreadFunc.stepsLeft (.pthreadJoin val s.threads.length)
        simp only [remaining, List.map_append, List.sum_append, List.map_singleton,
          List.sum_singleton, ThreadFunc.stepsLeft] at hjoin ⊢
        omega
  | pthreadJoin val nextThread =>
      simp only [threadNext] at hnext
      split_ifs at hnext
      · cases hnext
        exact remaining_fail_lt hrunning _
      · cases hnext
        exact remaining_set_lt hi (.printf val) (Nat.lt_succ_self 2) s.output
  | printf val =>
      cases hnext
      exact remaining_set_lt hi (.printing val) (Nat.lt_succ_self 1) s.output
  | printing val =>
      cases hnext
      exact remaining_set_lt hi .returned Nat.one_pos _
  | returned =>
      cases hnext

theorem remaining_next_lt
    {a : Label}
    (hnext : next s a = some t) :
    remaining t < remaining s := by
  unfold next at hnext
  split at hnext
  · cases hnext
  · next hrunning =>
      rw [Bool.not_eq_true] at hrunning
      split at hnext
      · exact remaining_mainNext_lt hrunning hnext
      · split at hnext
        · cases hnext
        · next hi =>
            exact remaining_threadNext_lt hrunning hi hnext

end Progress

section Shape

/-- The threads that wait for the next one, with the numbers they have read. -/
def joins
    (waiting : List Int) :
    List ThreadFunc :=
  waiting.mapIdx fun j val => .pthreadJoin val (j + 1)

/-- What the newest thread that has not returned is at, behind `waiting.length` others and
in front of `ended` that have returned. -/
inductive Newest
    (vals : List Int)
    (stdin : List UInt8)
    (output : List String)
    (waiting : List Int) :
    ThreadFunc → Nat → Prop
  | reading
      (f : ThreadFunc)
      (hf : f = .scanf ∨ f = .scanning)
      (hvals : vals = waiting ++ values stdin)
      (houtput : output = []) :
      Newest vals stdin output waiting f 0
  | creating
      (val : Int)
      (hvals : vals = waiting ++ val :: values stdin)
      (houtput : output = []) :
      Newest vals stdin output waiting (.pthreadCreate val) 0
  | joining
      (f : ThreadFunc)
      (val : Int)
      (behind : List Int)
      (ended : Nat)
      (hf : f = .pthreadJoin val (waiting.length + 1) ∨ f = .printf val ∨ f = .printing val)
      (hvals : vals = waiting ++ val :: behind)
      (houtput : output = behind.reverse.map printed) :
      Newest vals stdin output waiting f (ended + 1)

/-- The states of a run: at first the threads become more, and then they return. -/
inductive Shape
    (vals : List Int) :
    State → Prop
  | start
      (s : State)
      (hexit : s.exitStatus = none)
      (hmain : s.main = .pthreadCreate)
      (hthreads : s.threads = [])
      (hvals : vals = values s.stdin)
      (houtput : s.output = []) :
      Shape vals s
  | chain
      (s : State)
      (waiting : List Int)
      (f : ThreadFunc)
      (ended : Nat)
      (hexit : s.exitStatus = none)
      (hmain : s.main = .pthreadJoin 0)
      (hthreads : s.threads = joins waiting ++ f :: List.replicate ended .returned)
      (hnewest : Newest vals s.stdin s.output waiting f ended) :
      Shape vals s
  | returned
      (s : State)
      (ended : Nat)
      (hmain : s.main = .pthreadJoin 0 ∧ s.exitStatus = none ∨
        s.main = .return0 ∧ (s.exitStatus = none ∨ s.exitStatus = some 0))
      (hthreads : s.threads = List.replicate (ended + 1) .returned)
      (houtput : s.output = vals.reverse.map printed) :
      Shape vals s

variable {vals waiting : List Int} {stdin : List UInt8} {output : List String}
variable {s t : State} {f g : ThreadFunc} {i ended : Nat}

@[simp] theorem length_joins :
    (joins waiting).length = waiting.length :=
  List.length_mapIdx

theorem joins_concat
    (val : Int) :
    joins (waiting ++ [val]) =
      joins waiting ++ [.pthreadJoin val (waiting.length + 1)] :=
  List.mapIdx_concat

theorem eq_pthreadJoin_of_mem
    (h : f ∈ joins waiting) :
    ∃ val j, f = .pthreadJoin val j := by
  obtain ⟨j, hj, rfl⟩ := List.mem_mapIdx.mp h
  exact ⟨_, _, rfl⟩

/-- The newest thread has changed. -/
theorem set_newest
    (behind : List ThreadFunc) :
    (joins waiting ++ f :: behind).set waiting.length g = joins waiting ++ g :: behind := by
  rw [← length_joins, List.set_append_right _ _ (Nat.le_refl _), Nat.sub_self,
    List.set_cons_zero]

theorem getElem?_newest
    (behind : List ThreadFunc) :
    (joins waiting ++ f :: behind)[waiting.length]? = some f := by
  rw [← length_joins, List.getElem?_append_right (Nat.le_refl _), Nat.sub_self,
    List.getElem?_cons_zero]

/-- Neither the newest thread nor one in front of it has returned. -/
theorem getElem?_ne_returned
    (hi : i ≤ waiting.length)
    (hf : f ≠ .returned)
    (behind : List ThreadFunc) :
    (joins waiting ++ f :: behind)[i]? ≠ some .returned := by
  rcases Nat.lt_or_eq_of_le hi with hlt | rfl
  · intro hreturned
    rw [List.getElem?_append_left (by rwa [length_joins])] at hreturned
    obtain ⟨val, j, hjoin⟩ := eq_pthreadJoin_of_mem (List.mem_of_getElem? hreturned)
    cases hjoin
  · rw [getElem?_newest]
    exact fun h => hf (Option.some.inj h)

theorem getElem?_waiting
    (hi : i < waiting.length)
    (behind : List ThreadFunc) :
    (joins waiting ++ behind)[i]? = some (.pthreadJoin waiting[i] (i + 1)) := by
  rw [List.getElem?_append_left (by rwa [length_joins]), joins, List.getElem?_mapIdx,
    List.getElem?_eq_getElem hi]
  rfl

theorem Newest.ne_returned
    (h : Newest vals stdin output waiting f ended) :
    f ≠ .returned := by
  cases h with
  | reading _ hf _ _ =>
      rcases hf with rfl | rfl <;> decide
  | creating val _ _ =>
      simp
  | joining _ val _ _ hf _ _ =>
      rcases hf with rfl | rfl | rfl <;> simp

/-- When the newest thread returns, the one in front of it is the newest. -/
theorem shape_of_newest_returned
    (hexit : s.exitStatus = none)
    (hmain : s.main = .pthreadJoin 0)
    (hthreads : s.threads = joins waiting ++ .returned :: List.replicate ended .returned)
    {behind : List Int}
    (hvals : vals = waiting ++ behind)
    (houtput : s.output = behind.reverse.map printed) :
    Shape vals s := by
  rw [← List.replicate_succ] at hthreads
  rcases List.eq_nil_or_concat waiting with rfl | ⟨front, val, rfl⟩
  · rw [List.nil_append] at hvals
    subst hvals
    exact .returned s ended (Or.inl ⟨hmain, hexit⟩) hthreads houtput
  · refine .chain s front (.pthreadJoin val (front.length + 1)) (ended + 1) hexit hmain ?_ ?_
    · rw [hthreads, List.concat_eq_append, joins_concat, List.append_assoc]
      rfl
    · refine .joining _ val behind ended (Or.inl rfl) ?_ houtput
      rw [hvals, List.concat_eq_append, List.append_assoc]
      rfl

/-- Nothing can be read, so the newest thread returns. -/
theorem shape_of_scan_failed
    (hexit : s.exitStatus = none)
    (hmain : s.main = .pthreadJoin 0)
    (hthreads : s.threads = joins waiting ++ .returned :: List.replicate 0 .returned)
    {text : List UInt8}
    (hnone : numbers text = [])
    (hvals : vals = waiting ++ values text)
    (houtput : s.output = []) :
    Shape vals s := by
  rw [values, hnone, List.map_nil] at hvals
  exact shape_of_newest_returned hexit hmain hthreads hvals houtput

/-- A step of the newest thread. -/
theorem shape_of_newest_step
    (hexit : s.exitStatus = none)
    (hmain : s.main = .pthreadJoin 0)
    (hthreads : s.threads = joins waiting ++ f :: List.replicate ended .returned)
    (hnewest : Newest vals s.stdin s.output waiting f ended)
    (hnext : threadNext s waiting.length 0 f = some t) :
    Shape vals t := by
  have hset (g : ThreadFunc) : s.threads.set waiting.length g =
      joins waiting ++ g :: List.replicate ended .returned := by
    rw [hthreads, set_newest]
  have hlength : s.threads.length = waiting.length + (ended + 1) := by
    rw [hthreads, List.length_append, length_joins, List.length_cons, List.length_replicate]
  cases hnewest with
  | reading _ hf hvals houtput =>
      rcases hf with rfl | rfl
      · cases hnext
        exact .chain _ waiting .scanning 0 hexit hmain (hset _)
          (.reading _ (Or.inr rfl) hvals houtput)
      · simp only [threadNext] at hnext
        split at hnext
        · next value rest hscan =>
            cases hnext
            refine .chain _ waiting (.pthreadCreate (toInt32 value)) 0 hexit hmain (hset _)
              (.creating _ ?_ houtput)
            rw [hvals, values, (ScanInt.numbers_of_number hscan).1]
            rfl
        · next rest hscan =>
            cases hnext
            exact shape_of_scan_failed hexit hmain (hset _)
              (ScanInt.numbers_of_noMatch hscan).1 hvals houtput
        · next hscan =>
            cases hnext
            exact shape_of_scan_failed hexit hmain (hset _)
              (ScanInt.numbers_of_eof hscan).1 hvals houtput
  | creating val hvals houtput =>
      cases hnext
      refine .chain _ (waiting ++ [val]) .scanf 0 hexit hmain ?_
        (.reading _ (Or.inl rfl) ?_ houtput)
      · change s.threads.set _ (.pthreadJoin val s.threads.length) ++ [.scanf] = _
        rw [hset, hlength, joins_concat]
        rfl
      · rw [hvals, List.append_assoc]
        rfl
  | joining _ val behind ended hf hvals houtput =>
      rcases hf with rfl | rfl | rfl
      · simp only [threadNext, ne_eq, not_true_eq_false, if_false] at hnext
        split_ifs at hnext
        cases hnext
        exact .chain _ waiting (.printf val) (ended + 1) hexit hmain (hset _)
          (.joining _ val behind ended (Or.inr (Or.inl rfl)) hvals houtput)
      · cases hnext
        exact .chain _ waiting (.printing val) (ended + 1) hexit hmain (hset _)
          (.joining _ val behind ended (Or.inr (Or.inr rfl)) hvals houtput)
      · cases hnext
        refine shape_of_newest_returned hexit hmain (hset _) hvals ?_
        change s.output ++ [printed val] = _
        rw [houtput, List.reverse_cons, List.map_append]
        rfl

/-- A thread that is not the newest one has returned, or it waits. -/
theorem not_threadNext_of_chain
    (hthreads : s.threads = joins waiting ++ f :: List.replicate ended .returned)
    (hf : f ≠ .returned)
    (hi : s.threads[i]? = some g)
    (hother : i ≠ waiting.length) :
    threadNext s i 0 g = none := by
  have hne (hle : i + 1 ≤ waiting.length) : s.threads[i + 1]? ≠ some .returned := by
    rw [hthreads]
    exact getElem?_ne_returned hle hf _
  rcases Nat.lt_or_gt_of_ne hother with hlt | hgt
  · rw [hthreads, getElem?_waiting hlt] at hi
    cases hi
    simp [threadNext, hne hlt]
  · rw [hthreads, List.getElem?_append_right (by rw [length_joins]; omega), length_joins,
      List.getElem?_cons, if_neg (by omega)] at hi
    rw [List.eq_of_mem_replicate (List.mem_of_getElem? hi)]
    rfl

theorem next_of_running
    (hexit : s.exitStatus = none)
    (a : Label) :
    next s a =
      match a with
      | .main result => mainNext s result
      | .thread i result =>
          match s.threads[i]? with
          | none => none
          | some f => threadNext s i result f := by
  unfold next
  rw [if_neg (by rw [hexit]; decide)]

/-- While there is a newest thread, no other one moves, and `main` waits. -/
theorem shape_of_chain_step
    (hexit : s.exitStatus = none)
    (hmain : s.main = .pthreadJoin 0)
    (hthreads : s.threads = joins waiting ++ f :: List.replicate ended .returned)
    (hnewest : Newest vals s.stdin s.output waiting f ended)
    {a : Label}
    (ha : a.result = 0)
    (hnext : next s a = some t) :
    Shape vals t := by
  have hf := hnewest.ne_returned
  rw [next_of_running hexit] at hnext
  cases a with
  | main result =>
      obtain rfl : result = 0 := ha
      have hfirst : s.threads[0]? ≠ some .returned := by
        rw [hthreads]
        exact getElem?_ne_returned (Nat.zero_le _) hf _
      simp [mainNext, hmain, hfirst] at hnext
  | thread i result =>
      obtain rfl : result = 0 := ha
      dsimp only at hnext
      split at hnext
      · cases hnext
      · next g hi =>
          by_cases hself : i = waiting.length
          · subst hself
            rw [hthreads, getElem?_newest] at hi
            cases hi
            exact shape_of_newest_step hexit hmain hthreads hnewest hnext
          · rw [not_threadNext_of_chain hthreads hf hi hself] at hnext
            cases hnext

/-- When all threads have returned, only `main` moves. -/
theorem shape_of_returned_step
    (hmain : s.main = .pthreadJoin 0 ∧ s.exitStatus = none ∨
      s.main = .return0 ∧ (s.exitStatus = none ∨ s.exitStatus = some 0))
    (hthreads : s.threads = List.replicate (ended + 1) .returned)
    (houtput : s.output = vals.reverse.map printed)
    {a : Label}
    (ha : a.result = 0)
    (hnext : next s a = some t) :
    Shape vals t := by
  have hexit : s.exitStatus = none := by
    unfold next at hnext
    split_ifs at hnext with hexit
    rwa [Bool.not_eq_true, Option.isSome_eq_false_iff, Option.isNone_iff_eq_none] at hexit
  rw [next_of_running hexit] at hnext
  cases a with
  | main result =>
      obtain rfl : result = 0 := ha
      have hfirst : s.threads[0]? = some .returned := by
        rw [hthreads]
        rfl
      rcases hmain with ⟨hmain, -⟩ | ⟨hmain, -⟩
      · simp only [mainNext, hmain, hfirst, ne_eq, not_true_eq_false, if_false, if_true,
          Option.some.injEq] at hnext
        subst hnext
        exact .returned _ ended (Or.inr ⟨rfl, Or.inl hexit⟩) hthreads houtput
      · simp only [mainNext, hmain, Option.some.injEq] at hnext
        subst hnext
        exact .returned _ ended (Or.inr ⟨rfl, Or.inr rfl⟩) hthreads houtput
  | thread i result =>
      dsimp only at hnext
      split at hnext
      · cases hnext
      · next g hi =>
          rw [hthreads] at hi
          rw [List.eq_of_mem_replicate (List.mem_of_getElem? hi)] at hnext
          cases hnext

/-- One step of a run in which no call of the thread library fails. -/
theorem Shape.step
    (h : Shape vals s)
    {a : Label}
    (ha : a.result = 0)
    (hnext : next s a = some t) :
    Shape vals t := by
  cases h with
  | start hexit hmain hthreads hvals houtput =>
      rw [next_of_running hexit] at hnext
      cases a with
      | main result =>
          obtain rfl : result = 0 := ha
          simp only [mainNext, hmain, hthreads, ne_eq, not_true_eq_false, if_false,
            Option.some.injEq] at hnext
          subst hnext
          exact .chain _ [] .scanf 0 hexit rfl rfl (.reading _ (Or.inl rfl) hvals houtput)
      | thread i result =>
          simp [hthreads] at hnext
  | chain waiting f ended hexit hmain hthreads hnewest =>
      exact shape_of_chain_step hexit hmain hthreads hnewest ha hnext
  | returned ended hmain hthreads houtput =>
      exact shape_of_returned_step hmain hthreads houtput ha hnext

theorem shape_of_reachable
    (hs : (system stdin).Reachable s) :
    Shape (values stdin) s := by
  refine hs.invariant (fun s hstart => ?_) (fun s a t h hstep => h.step hstep.1 hstep.2)
  obtain rfl := hstart
  exact .start _ rfl rfl rfl rfl rfl

/-- Only the newest thread reads or prints. -/
theorem Shape.busy_le_one
    (h : Shape vals s) :
    s.threads.countP ThreadFunc.busy ≤ 1 := by
  cases h with
  | start _ _ hthreads _ _ =>
      simp [hthreads]
  | chain waiting f ended _ _ hthreads _ =>
      have hwaiting : (joins waiting).countP ThreadFunc.busy = 0 := by
        refine List.countP_eq_zero.mpr fun g hg => ?_
        obtain ⟨val, j, rfl⟩ := eq_pthreadJoin_of_mem hg
        simp [ThreadFunc.busy]
      have hended : (List.replicate ended ThreadFunc.returned).countP ThreadFunc.busy = 0 := by
        refine List.countP_eq_zero.mpr fun g hg => ?_
        rw [List.eq_of_mem_replicate hg]
        simp [ThreadFunc.busy]
      rw [hthreads, List.countP_append, List.countP_cons, hwaiting, hended]
      split_ifs <;> omega
  | returned ended _ hthreads _ =>
      rw [hthreads, List.countP_eq_zero.mpr]
      · exact Nat.zero_le 1
      · intro g hg
        rw [List.eq_of_mem_replicate hg]
        simp [ThreadFunc.busy]

theorem Shape.output_prefix
    (h : Shape vals s) :
    s.output <+: vals.reverse.map printed := by
  cases h with
  | start _ _ _ _ houtput =>
      rw [houtput]
      exact List.nil_prefix
  | chain waiting f ended _ _ _ hnewest =>
      cases hnewest with
      | reading _ _ _ houtput | creating _ _ houtput =>
          rw [houtput]
          exact List.nil_prefix
      | joining _ val behind _ _ hvals houtput =>
          rw [houtput, hvals, List.reverse_append, List.reverse_cons, List.append_assoc,
            List.map_append]
          exact List.prefix_append _ _
  | returned _ _ _ houtput =>
      exact houtput ▸ List.prefix_rfl

/-- Nothing can move only when the process has exited. -/
theorem Shape.exited_of_stuck
    (h : Shape vals s)
    (hstuck : ∀ a, a.result = 0 → next s a = none) :
    s.exitStatus = some 0 ∧ s.output = vals.reverse.map printed := by
  cases h with
  | start hexit hmain _ _ _ =>
      have hnext := hstuck (.main 0) rfl
      simp [next, mainNext, hexit, hmain] at hnext
  | chain waiting f ended hexit hmain hthreads hnewest =>
      have hself : s.threads[waiting.length]? = some f := by
        rw [hthreads, getElem?_newest]
      have hnext := hstuck (.thread waiting.length 0) rfl
      simp only [next, hexit, hself, Option.isSome_none, Bool.false_eq_true, if_false] at hnext
      cases hnewest with
      | reading _ hf _ _ =>
          rcases hf with rfl | rfl
          · cases hnext
          · simp only [threadNext] at hnext
            split at hnext <;> cases hnext
      | creating val _ _ =>
          cases hnext
      | joining _ val behind ended hf _ _ =>
          have hchild : s.threads[waiting.length + 1]? = some .returned := by
            rw [hthreads, List.getElem?_append_right (by rw [length_joins]; omega),
              length_joins, Nat.add_sub_cancel_left]
            rfl
          rcases hf with rfl | rfl | rfl
          · simp [threadNext, hchild] at hnext
          · cases hnext
          · cases hnext
  | returned ended hmain hthreads houtput =>
      refine ⟨?_, houtput⟩
      have hnext := hstuck (.main 0) rfl
      have hfirst : s.threads[0]? = some .returned := by
        rw [hthreads]
        rfl
      rcases hmain with ⟨hmain, hexit⟩ | ⟨hmain, hexit | hexit⟩
      · simp [next, mainNext, hexit, hmain, hfirst] at hnext
      · simp [next, mainNext, hexit, hmain] at hnext
      · exact hexit

end Shape

/-- When no call of the thread library fails, no two threads read or print at one time,
and every run comes to an end, where the numbers that can be scanned have been printed in
the opposite order. -/
theorem prints_in_reverse
    (stdin : List UInt8)
    (s : State)
    (hs : (system stdin).Reachable s) :
    s.threads.countP ThreadFunc.busy ≤ 1 ∧
    s.output <+: (values stdin).reverse.map printed ∧
    Terminates (fun s t => ∃ a, (system stdin).step s a t) s ∧
    ((∀ a t, ¬ (system stdin).step s a t) →
      s.exitStatus = some 0 ∧ s.output = (values stdin).reverse.map printed) := by
  have hshape := shape_of_reachable hs
  refine ⟨hshape.busy_le_one, hshape.output_prefix, ?_, fun hstuck => ?_⟩
  · have hlower (s t : State) (hst : ∃ a, (system stdin).step s a t) :
        remaining t < remaining s := by
      obtain ⟨a, -, hnext⟩ := hst
      exact remaining_next_lt hnext
    exact terminates_of_measure (I := fun _ => True) remaining (fun _ _ _ _ => trivial)
      (fun s t _ hst => hlower s t hst) trivial
  · refine hshape.exited_of_stuck fun a ha => ?_
    cases hnext : next s a with
    | none =>
        rfl
    | some t =>
        exact absurd ⟨ha, hnext⟩ (hstuck a t)

/-- The state behind the first call of `printf` on the input `1 2`. -/
def onePrinted : State where
  main := .pthreadJoin 0
  threads := [.pthreadJoin 1 1, .returned, .returned]
  stdin := []
  output := ["2 "]
  errors := []
  exitStatus := none

theorem reachable_onePrinted :
    (system [49, 32, 50]).Reachable onePrinted := by
  have hstart : (system [49, 32, 50]).Reachable (start [49, 32, 50]) := .init rfl
  exact TransitionSystem.reachable_of_exec
    [.main 0, .thread 0 0, .thread 0 0, .thread 0 0, .thread 1 0, .thread 1 0, .thread 1 0,
      .thread 2 0, .thread 2 0, .thread 1 0, .thread 1 0, .thread 1 0]
    hstart (by decide) (by decide)

theorem prints_in_reverse_onePrinted :
    onePrinted.output <+: (values [49, 32, 50]).reverse.map printed := by
  obtain ⟨-, hprefix, -, -⟩ :=
    prints_in_reverse [49, 32, 50] onePrinted reachable_onePrinted
  exact hprefix

end CreateJoin
end Threads
end OsSeminars
