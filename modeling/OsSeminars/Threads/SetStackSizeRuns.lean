import OsSeminars.Foundation.Termination
import OsSeminars.Threads.SetStackSize

/-!
# 15-threads/threads/set-stack-size.c: whole runs

The options may stand anywhere among the arguments. The threads are announced in the order of
their arguments, whatever the order in which they run, and the process comes to its end.
-/

namespace OsSeminars
namespace Threads
namespace SetStackSize

open Foundation
open Getopt (Arg Parsed)

section Options

variable {args : List Arg} {items : List Getopt.Item} {s : State}

theorem start_of_written
    {r : Parsed}
    (h : Getopt.Written known args r) :
    start args = ⟨.attrInit, stackSize r.options, r.operands, [], [], [], [], none⟩ := by
  have hparse := (Getopt.parse_eq_some_iff rfl).mpr h
  rw [start, hparse]

/-- The last option counts. -/
theorem stackSize_concat
    (options : List (UInt8 × Arg))
    (c : UInt8)
    (value : Arg) :
    stackSize (options ++ [(c, value)]) = toInt32 (Numeral.strtoul value) := by
  rw [stackSize, List.foldl_append, List.foldl_cons, List.foldl_nil]

/--
Wherever the options stand among the other arguments: the threads are announced in the order
of their arguments, each with its argument in upper case and behind the line that it has
printed itself. No thread prints twice, and the process exits with `0` only when all of them
have been announced.
-/
theorem announced_in_order
    (hvalid : ∀ item ∈ items, item.Valid known)
    (h : (system (items.flatMap Getopt.Item.render)).Reachable s) :
    let operands := items.filterMap Getopt.Item.arg
    ∃ j, j ≤ operands.length ∧
      s.output.filterMap Line.ofJoined = (announced operands).take j ∧
      (∀ (i : Nat) (arg : Arg), operands[i]? = some arg →
        s.output.count (ownLine i arg) ≤ 1 ∧ (i < j → ownLine i arg ∈ s.output)) ∧
      (s.status = some 0 → j = operands.length) := by
  have hwritten : Getopt.Written known (items.flatMap Getopt.Item.render)
      (Getopt.meaning items []) :=
    ⟨items, hvalid, Or.inl ⟨rfl, rfl⟩⟩
  have hoperands : s.operands = items.filterMap Getopt.Item.arg := by
    rw [operands_of_reachable h, start_of_written hwritten]
    exact List.append_nil _
  have hinv := inv_of_reachable h
  have hprinted := hinv.printed
  intro operands
  have hsame : operands = s.operands := hoperands.symm
  clear_value operands
  subst hsame
  refine ⟨s.main.joined s.operands.length, hprinted.joined_le, hprinted.joined, ?_, ?_⟩
  · intro i arg harg
    exact ⟨hprinted.once i arg harg, fun hi => hprinted.before i arg hi harg⟩
  · intro hzero
    rw [hinv.exited hzero]
    rfl

/-- `-s16384` -/
def smallestStack : Arg :=
  [45, 115] ++ Numeral.decimal 16384

/-- Two threads and an option between their arguments; one of them has been announced. -/
theorem announced_in_order_twoThreads :
    ∃ s, (system [[97], smallestStack, [98]]).Reachable s ∧
      s.output = [.thread 1 [97], .thread 2 [98], .joined 1 [65]] ∧
      ∃ j, j ≤ 2 ∧
        s.output.filterMap Line.ofJoined = (announced [[97], [98]]).take j := by
  have hstart : (system [[97], smallestStack, [98]]).Reachable
      (start [[97], smallestStack, [98]]) :=
    TransitionSystem.Reachable.init rfl
  obtain ⟨s, hs, htest⟩ :=
    TransitionSystem.exists_reachable_of_exec
      [.main true, .main true, .main true, .main true, .main true, .thread 0 true,
        .thread 1 true, .main true, .main true, .thread 0 true, .thread 0 true, .thread 0 true,
        .main true, .main true]
      (fun s : State =>
        decide (s.output = [.thread 1 [97], .thread 2 [98], .joined 1 [65]]))
      hstart (by decide +kernel) (by decide +kernel)
  have hvalid : ∀ item ∈
      [Getopt.Item.operand [97], .attached 115 (Numeral.decimal 16384), .operand [98]],
      item.Valid known := by
    have hvalue : Numeral.decimal 16384 ≠ [] := by decide
    simp [Getopt.Item.Valid, Getopt.IsOperand, known, hvalue]
  obtain ⟨j, hj, hjoined, -⟩ := announced_in_order hvalid hs
  exact ⟨s, hs, of_decide_eq_true htest, j, hj, hjoined⟩

/--
The options are accepted exactly when the arguments are operands and options with their
values, possibly followed by `--` and further operands. A number `n` of 64 bits that is the
value of the last option is taken as a number of 32 bits with a sign.
-/
theorem start_accepted_iff
    (args : List Arg) :
    ((start args).status = none ↔ ∃ r, Getopt.Written known args r) ∧
    ∀ (r : Parsed) (options : List (UInt8 × Arg)) (n : Nat),
      Getopt.Written known args r → r.options = options ++ [(115, Numeral.decimal n)] →
      n < 2 ^ 64 →
      (start args).stackSize = toInt32 n := by
  constructor
  · constructor
    · intro hstatus
      cases hparse : Getopt.parse known none args with
      | none =>
          rw [start, hparse] at hstatus
          cases hstatus
      | some r =>
          exact ⟨r, Getopt.written_of_parse hparse⟩
    · rintro ⟨r, hwritten⟩
      rw [start_of_written hwritten]
  · intro r options n hwritten hoptions hn
    rw [start_of_written hwritten, hoptions]
    dsimp only
    rw [stackSize_concat, Numeral.strtoul_decimal hn]

end Options

section Exiting

variable {s t : State} {i : Nat} {f : ThreadStart}

/-- The steps that a thread has left, if no argument is longer than the bound. -/
def ThreadStart.left
    (bound : Nat) :
    ThreadStart → Nat
  | printf => bound + 3
  | strdup => bound + 2
  | upper _ rest => rest.length + 1
  | returned _ => 0

/-- The steps that `main` has left of `n` threads, apart from those that it starts. -/
def Main.left
    (n : Nat) :
    Main → Nat
  | attrInit => 2 * n + 6
  | setStackSize => 2 * n + 5
  | calloc => 2 * n + 4
  | create _ => 2 * n + 3
  | attrDestroy => 2 * n + 2
  | join tnum => 2 * (n - tnum) + 1
  | printJoined tnum _ => 2 * (n - tnum)
  | exit => 0

/-- All arguments together are at least as long as each of them. -/
def bound
    (s : State) :
    Nat :=
  s.operands.flatten.length

def stepsLeft
    (s : State) :
    Nat :=
  (if s.status = none then 1 else 0) + s.main.left s.operands.length +
    (s.operands.length - s.main.created s.operands.length) * (bound s + 4) +
    (s.threads.map (ThreadStart.left (bound s))).sum

/-- A thread that has not returned takes a step. -/
theorem exists_thread
    (hrunning : Running s)
    (hstatus : s.status = none)
    (hi : s.threads[i]? = some f)
    (hf : ∀ uargv, f ≠ .returned uargv) :
    ∃ t, next s (.thread i true) = some t ∧ t.status = none ∧ stepsLeft t < stepsLeft s := by
  obtain ⟨hlt, -⟩ := List.getElem?_eq_some_iff.mp hi
  have hlt' : i < s.tinfo.length := by
    rw [hrunning.tinfo_length]
    exact hlt
  have hinfo : s.tinfo[i]? = some s.tinfo[i] := List.getElem?_eq_getElem hlt'
  obtain ⟨-, harg⟩ := hrunning.tinfo i _ hinfo
  have hbound : (s.tinfo[i]).argvString.length ≤ bound s :=
    (List.sublist_flatten_of_mem (List.mem_of_getElem? harg)).length_le
  have hnext : next s (.thread i true) = threadNext s i true s.tinfo[i] f := by
    simp only [next, hstatus, hinfo, hi]
    rfl
  rw [hnext]
  have hlower : ∀ g, g.left (bound s) < f.left (bound s) →
      ((s.threads.set i g).map (ThreadStart.left (bound s))).sum <
        (s.threads.map (ThreadStart.left (bound s))).sum :=
    fun g hg => sum_map_set_lt hi hg
  cases f with
  | printf =>
      exact ⟨_, rfl, hstatus, Nat.add_lt_add_left (hlower .strdup (Nat.lt_succ_self _)) _⟩
  | strdup =>
      refine ⟨_, rfl, hstatus, Nat.add_lt_add_left (hlower (.upper [] _) ?_) _⟩
      exact Nat.succ_le_succ (Nat.succ_le_succ hbound)
  | upper front rest =>
      cases rest with
      | nil =>
          exact ⟨_, rfl, hstatus, Nat.add_lt_add_left (hlower (.returned _) Nat.one_pos) _⟩
      | cons c rest =>
          refine ⟨_, rfl, hstatus, Nat.add_lt_add_left (hlower (.upper _ rest) ?_) _⟩
          exact Nat.lt_succ_self _
  | returned uargv =>
      exact absurd rfl (hf uargv)

/-- `main` takes a step, unless it waits for a thread that has not returned. -/
theorem exists_main
    (hrunning : Running s)
    (hstatus : s.status = none)
    (hsize : s.main = .setStackSize → pthreadStackMin ≤ s.stackSize)
    (hready : ∀ tnum, s.main = .join tnum → tnum < s.operands.length →
      ∃ uargv, s.threads[tnum]? = some (.returned uargv)) :
    ∃ t, next s (.main true) = some t ∧ (t.status = none ∨ t.status = some 0) ∧
      stepsLeft t < stepsLeft s := by
  have hnext : next s (.main true) = mainNext s true := by
    simp only [next, hstatus]
    rfl
  rw [hnext]
  unfold mainNext
  cases hmain : s.main with
  | attrInit =>
      refine ⟨_, rfl, Or.inl hstatus, ?_⟩
      simp only [stepsLeft, checked, if_true, hmain, bound]
      split_ifs <;> simp [Main.left, Main.created]
  | setStackSize =>
      dsimp only
      rw [decide_eq_true (hsize hmain)]
      refine ⟨_, rfl, Or.inl hstatus, ?_⟩
      simp [stepsLeft, checked, hmain, bound, Main.left, Main.created]
  | calloc =>
      refine ⟨_, rfl, Or.inl hstatus, ?_⟩
      simp [stepsLeft, checked, hmain, bound, Main.left, Main.created]
  | create tnum =>
      dsimp only
      cases harg : s.operands[tnum]? with
      | none =>
          refine ⟨_, rfl, Or.inl hstatus, ?_⟩
          have hge := List.getElem?_eq_none_iff.mp harg
          simp [stepsLeft, hmain, bound, Main.left, Main.created, Nat.sub_eq_zero_of_le hge]
      | some arg =>
          refine ⟨_, rfl, Or.inl hstatus, ?_⟩
          obtain ⟨hlt, -⟩ := List.getElem?_eq_some_iff.mp harg
          obtain ⟨k, hk⟩ := Nat.exists_eq_add_of_lt hlt
          have hbefore : s.operands.length - tnum = k + 1 := by omega
          have hbehind : s.operands.length - (tnum + 1) = k := by omega
          -- the new thread takes one step less than it has been reckoned with
          simp only [stepsLeft, checked, if_true, hmain, bound, Main.left, Main.created,
            List.map_append, List.sum_append, List.map_cons, List.map_nil, List.sum_cons,
            List.sum_nil, ThreadStart.left, hbefore, hbehind, Nat.succ_mul]
          omega
  | attrDestroy =>
      refine ⟨_, rfl, Or.inl hstatus, ?_⟩
      simp [stepsLeft, checked, hmain, bound, Main.left, Main.created]
  | join tnum =>
      dsimp only
      by_cases hlt : tnum < s.operands.length
      · obtain ⟨uargv, hreturned⟩ := hready tnum hmain hlt
        rw [if_pos hlt, if_pos rfl, hreturned]
        refine ⟨_, rfl, Or.inl hstatus, ?_⟩
        simp [stepsLeft, hmain, bound, Main.left, Main.created]
      · rw [if_neg hlt]
        refine ⟨_, rfl, Or.inl hstatus, ?_⟩
        simp [stepsLeft, hmain, bound, Main.left, Main.created]
  | printJoined tnum res =>
      obtain ⟨hlt, hreturned⟩ := hrunning.announcing tnum res hmain
      obtain ⟨hthread, -⟩ := List.getElem?_eq_some_iff.mp hreturned
      have hinfo : s.tinfo[tnum]? = some _ :=
        List.getElem?_eq_getElem (by rw [hrunning.tinfo_length]; exact hthread)
      dsimp only
      rw [hinfo, Option.map_some]
      refine ⟨_, rfl, Or.inl hstatus, ?_⟩
      simp only [stepsLeft, hmain, bound, Main.left, Main.created]
      omega
  | exit =>
      refine ⟨_, rfl, Or.inr rfl, ?_⟩
      simp [stepsLeft, hstatus, hmain, bound, Main.left, Main.created]

/-- The size is set only if it is positive, and with one that is too small the process
does not get beyond this. -/
structure Sized
    (s : State) :
    Prop where
  set : s.main = .setStackSize → 0 < s.stackSize
  refused : 0 < s.stackSize → s.stackSize < pthreadStackMin →
    (s.main = .attrInit ∨ s.main = .setStackSize) ∧ s.threads = [] ∧ s.status ≠ some 0

theorem sized_start
    (args : List Arg) :
    Sized (start args) := by
  unfold start
  cases Getopt.parse known none args with
  | none =>
      exact ⟨nofun, nofun⟩
  | some r =>
      exact ⟨nofun, fun _ _ => ⟨Or.inl rfl, rfl, nofun⟩⟩

theorem Sized.handleError
    (h : Sized s)
    (msg : String) :
    Sized (s.handleError msg) where
  set := h.set
  refused hpos hlt := by
    obtain ⟨hmain, hthreads, -⟩ := h.refused hpos hlt
    exact ⟨hmain, hthreads, nofun⟩

/-- A size that has been accepted stays so. -/
theorem Sized.of_accepted
    (haccepted : s.stackSize ≤ 0 ∨ pthreadStackMin ≤ s.stackSize)
    (hmain : s.main ≠ .setStackSize) :
    Sized s where
  set h := absurd h hmain
  refused hpos hlt := by omega

/-- Behind the attributes no size is set. -/
theorem main_ne_setStackSize
    {succeeds : Bool}
    (hstep : mainNext s succeeds = some t)
    (hmain : ¬(s.main = .attrInit ∨ s.main = .setStackSize)) :
    t.main ≠ .setStackSize := by
  have hsame : s.main ≠ .setStackSize := fun h => hmain (Or.inr h)
  unfold mainNext at hstep
  cases hpc : s.main with
  | attrInit =>
      exact absurd (Or.inl hpc) hmain
  | setStackSize =>
      exact absurd hpc hsame
  | create tnum =>
      rw [hpc] at hstep
      dsimp only at hstep
      split at hstep
      · cases hstep
        nofun
      · cases hstep
        cases succeeds <;> nofun
  | join tnum =>
      rw [hpc] at hstep
      dsimp only at hstep
      split_ifs at hstep
      · split at hstep <;> cases hstep
        nofun
      · cases hstep
        exact hsame
      · cases hstep
        nofun
  | printJoined tnum res =>
      rw [hpc] at hstep
      obtain ⟨info, -, rfl⟩ := Option.map_eq_some_iff.mp hstep
      nofun
  | exit =>
      rw [hpc] at hstep
      cases hstep
      nofun
  | _ =>
      rw [hpc] at hstep
      cases hstep
      cases succeeds with
      | true =>
          nofun
      | false =>
          exact hsame

theorem Sized.main
    (h : Sized s)
    (hstatus : s.status = none)
    {succeeds : Bool}
    (hstep : mainNext s succeeds = some t) :
    Sized t := by
  by_cases hearly : s.main = .attrInit ∨ s.main = .setStackSize
  · unfold mainNext at hstep
    rcases hearly with hmain | hmain
    · rw [hmain] at hstep
      cases hstep
      cases succeeds with
      | false =>
          exact h.handleError _
      | true =>
          by_cases hpos : 0 < s.stackSize
          · simp only [checked, if_true, if_pos hpos]
            refine ⟨fun _ => hpos, fun _ hlt => ⟨Or.inr rfl, (h.refused hpos hlt).2.1, ?_⟩⟩
            rw [hstatus]
            exact nofun
          · simp only [checked, if_true, if_neg hpos]
            exact .of_accepted (Or.inl (Int.not_lt.mp hpos)) nofun
    · rw [hmain] at hstep
      cases hstep
      by_cases hsucceeds : (succeeds && decide (pthreadStackMin ≤ s.stackSize)) = true
      · rw [checked, if_pos hsucceeds]
        have hmin := of_decide_eq_true (Bool.and_eq_true_iff.mp hsucceeds).2
        exact .of_accepted (Or.inr hmin) nofun
      · rw [checked, if_neg hsucceeds]
        exact h.handleError _
  · refine .of_accepted ?_ (main_ne_setStackSize hstep hearly)
    rw [(sameArguments_of_main hstep).2]
    by_contra hnone
    rw [not_or] at hnone
    exact hearly (h.refused (by omega) (by omega)).1

theorem Sized.step
    (h : Sized s)
    {label : Label}
    (hstep : next s label = some t) :
    Sized t := by
  unfold next at hstep
  split_ifs at hstep with hexited
  have hstatus : s.status = none := by simpa using hexited
  cases label with
  | main succeeds =>
      exact h.main hstatus hstep
  | thread i succeeds =>
      dsimp only at hstep
      split at hstep
      · next info f _ hi =>
          obtain ⟨⟨-, hsame⟩, hmain⟩ := frame_of_thread hstep
          refine ⟨fun hset => ?_, fun hpos hlt => ?_⟩
          · rw [hsame]
            exact h.set (hmain.symm.trans hset)
          · rw [hsame] at hpos hlt
            rw [(h.refused hpos hlt).2.1] at hi
            cases hi
      · cases hstep

theorem sized_of_reachable
    {args : List Arg}
    (h : (system args).Reachable s) :
    Sized s := by
  refine h.invariant ?_ ?_
  · rintro _ rfl
    exact sized_start args
  · rintro s label t hs ⟨-, hstep⟩
    exact hs.step hstep

theorem stackSize_of_runs
    {args : List Arg}
    (hruns : (system args).Runs s t) :
    t.stackSize = s.stackSize := by
  induction hruns with
  | refl =>
      rfl
  | tail _ hstep ih =>
      obtain ⟨label, -, hnext⟩ := hstep
      exact (sameArguments_of_step hnext).2.trans ih

/-- The process goes on to its end with all calls succeeding. -/
structure Going
    (s u : State) :
    Prop where
  inv : Inv u
  sized : Sized u
  arguments : SameArguments s u
  status : u.status = none ∨ u.status = some 0

theorem Going.step
    (h : Going s t)
    {label : Label}
    {u : State}
    (hstep : next t label = some u)
    (hstatus : u.status = none ∨ u.status = some 0) :
    Going s u where
  inv := h.inv.step hstep
  sized := h.sized.step hstep
  arguments := by
    obtain ⟨hoperands, hsize⟩ := sameArguments_of_step hstep
    exact ⟨hoperands.trans h.arguments.1, hsize.trans h.arguments.2⟩
  status := hstatus

/-- A size that is not refused leads to the end. -/
theorem Going.progress
    (h : Going s t)
    (hsize : s.stackSize ≤ 0 ∨ pthreadStackMin ≤ s.stackSize) :
    t.status = some 0 ∨
      ∃ label u, next t label = some u ∧ Going s u ∧ stepsLeft u < stepsLeft t := by
  rcases h.status with hnone | hzero
  · right
    have hrunning := h.inv.running hnone
    by_cases hready : ∀ tnum, t.main = .join tnum → tnum < t.operands.length →
        ∃ uargv, t.threads[tnum]? = some (.returned uargv)
    · have hset : t.main = .setStackSize → pthreadStackMin ≤ t.stackSize := by
        intro hmain
        have hpos := h.sized.set hmain
        rw [h.arguments.2] at hpos ⊢
        omega
      obtain ⟨u, hnext, hu, hlower⟩ := exists_main hrunning hnone hset hready
      exact ⟨_, u, hnext, h.step hnext hu, hlower⟩
    · push Not at hready
      obtain ⟨tnum, hmain, hlt, hwaiting⟩ := hready
      have hthread : tnum < t.threads.length := by
        rw [hrunning.created, hmain]
        exact hlt
      have hi : t.threads[tnum]? = some t.threads[tnum] := List.getElem?_eq_getElem hthread
      have hf : ∀ uargv, t.threads[tnum] ≠ .returned uargv := by
        intro uargv hreturned
        exact hwaiting uargv (hi.trans (congrArg some hreturned))
      obtain ⟨u, hnext, hu, hlower⟩ := exists_thread hrunning hnone hi hf
      exact ⟨_, u, hnext, h.step hnext (Or.inl hu), hlower⟩
  · exact Or.inl hzero

/-- When no call fails, the process comes to its end, and no join waits for ever, if and only
if the size of the stacks is not refused. -/
theorem announced_exit_iff
    {args : List Arg}
    (h : (system args).Reachable s)
    (hstatus : s.status = none) :
    (∃ t, (system args).Runs s t ∧
      t.status = some 0 ∧
      t.output.filterMap Line.ofJoined = announced s.operands) ↔
    s.stackSize ≤ 0 ∨ pthreadStackMin ≤ s.stackSize := by
  have hgoing : Going s s :=
    ⟨inv_of_reachable h, sized_of_reachable h, ⟨rfl, rfl⟩, Or.inl hstatus⟩
  constructor
  · rintro ⟨t, hruns, hzero, -⟩
    by_contra hrefused
    rw [not_or] at hrefused
    have hsame : t.stackSize = s.stackSize := stackSize_of_runs hruns
    have hsized := sized_of_reachable (h.runs hruns)
    exact (hsized.refused (by omega) (by omega)).2.2 hzero
  · intro hsize
    obtain ⟨t, hruns, ht, hzero⟩ :=
      TransitionSystem.exists_runs_of_measure (T := system args) (I := Going s) stepsLeft
        (fun u hu => (hu.progress hsize).imp_right
          fun ⟨label, v, hnext, hv, hlower⟩ => ⟨label, v, ⟨trivial, hnext⟩, hv, hlower⟩)
        hgoing
    refine ⟨t, hruns, hzero, ?_⟩
    have hjoined := ht.inv.printed.joined
    rw [ht.inv.exited hzero, ht.arguments.1] at hjoined
    rw [hjoined]
    exact List.take_of_length_le (by simp [announced, Main.joined])

/-- The thread has been started and has not printed yet. -/
theorem announced_exit_iff_oneThread :
    ∃ s, (system [[97]]).Reachable s ∧
      s.threads = [.printf] ∧
      ∃ t, (system [[97]]).Runs s t ∧
        t.status = some 0 ∧
        t.output.filterMap Line.ofJoined = announced [[97]] := by
  have hstart : (system [[97]]).Reachable (start [[97]]) :=
    TransitionSystem.Reachable.init rfl
  obtain ⟨s, hs, htest⟩ :=
    TransitionSystem.exists_reachable_of_exec
      [.main true, .main true, .main true]
      (fun s : State =>
        decide (s.threads = [.printf] ∧ s.status = none ∧ s.operands = [[97]] ∧
          s.stackSize ≤ 0))
      hstart (by decide +kernel) (by decide +kernel)
  obtain ⟨hthreads, hstatus, hoperands, hsize⟩ := of_decide_eq_true htest
  obtain ⟨t, hruns, hzero, hjoined⟩ := (announced_exit_iff hs hstatus).mpr (Or.inl hsize)
  rw [hoperands] at hjoined
  exact ⟨s, hs, hthreads, t, hruns, hzero, hjoined⟩

end Exiting

end SetStackSize
end Threads
end OsSeminars
