import OsSeminars.Foundation.Getopt
import OsSeminars.Foundation.Numeral
import OsSeminars.Foundation.TransitionSystem

/-!
# 15-threads/threads/set-stack-size.c

`main` reads the option `-s` with `getopt`, starts one thread for each of the other
arguments, and joins the threads in the same order. A thread prints its argument and returns
a copy of it in upper case. When a call of the library fails, the whole process exits.

A label says who moves and whether the call that it makes succeeds; a stack size below
`PTHREAD_STACK_MIN` is always refused. The address that a thread prints is left out.
-/

namespace OsSeminars
namespace Threads
namespace SetStackSize

open Foundation
open Getopt (Arg Parsed)

/-- `struct thread_info`, without the id of the thread, which is its place. -/
structure ThreadInfo where
  threadNum : Int
  argvString : Arg
  deriving DecidableEq

/-- `thread_start`; the loop has handled the first part of the copy. -/
inductive ThreadStart
  | printf
  | strdup
  | upper (front rest : List UInt8)
  | returned (uargv : List UInt8)
  deriving DecidableEq

/-- The program points of `main` behind the options. -/
inductive Main
  | attrInit
  | setStackSize
  | calloc
  | create (tnum : Nat)
  | attrDestroy
  | join (tnum : Nat)
  | printJoined (tnum : Nat) (res : List UInt8)
  | exit
  deriving DecidableEq

/-- What is printed by a thread, and by `main` behind a join. -/
inductive Line
  | thread (threadNum : Int) (argvString : Arg)
  | joined (threadNum : Int) (res : List UInt8)
  deriving DecidableEq

structure State where
  main : Main
  stackSize : Int
  /-- `argv` from `optind` on -/
  operands : List Arg
  tinfo : List ThreadInfo
  threads : List ThreadStart
  output : List Line
  /-- what was printed to the standard error -/
  errors : List String
  status : Option Int
  deriving DecidableEq

inductive Label
  | main (succeeds : Bool)
  | thread (i : Nat) (succeeds : Bool)
  deriving DecidableEq

def Label.succeeds :
    Label → Bool
  | main succeeds => succeeds
  | thread _ succeeds => succeeds

/-- `toupper` in the locale of C. -/
def toupper
    (c : UInt8) :
    UInt8 :=
  if 97 ≤ c ∧ c ≤ 122 then c - 32 else c

/-- The option string is `"s:"`. -/
def known
    (c : UInt8) :
    Bool :=
  c = 115

/-- `stack_size` behind the loop over the options. -/
def stackSize
    (options : List (UInt8 × Arg)) :
    Int :=
  options.foldl (fun _ option => toInt32 (Numeral.strtoul option.2)) (-1)

/-- `PTHREAD_STACK_MIN`: no thread can have a smaller stack. -/
def pthreadStackMin : Int :=
  16384

/-- Behind the loop over the options; a usage error ends the process. -/
def start
    (args : List Arg) :
    State :=
  match Getopt.parse known none args with
  | none => ⟨.attrInit, -1, [], [], [], [], ["Usage"], some 1⟩
  | some r => ⟨.attrInit, stackSize r.options, r.operands, [], [], [], [], none⟩

/-- `perror(msg)` and `exit(EXIT_FAILURE)`. -/
def State.handleError
    (s : State)
    (msg : String) :
    State :=
  { s with errors := s.errors ++ [msg], status := some 1 }

section Steps

variable (s : State)

/-- A call that has to succeed. -/
def checked
    (succeeds : Bool)
    (msg : String)
    (behind : State) :
    State :=
  if succeeds then behind else s.handleError msg

def mainNext
    (succeeds : Bool) :
    Option State :=
  match s.main with
  | .attrInit =>
      some (checked s succeeds "pthread_attr_init"
        { s with main := if 0 < s.stackSize then .setStackSize else .calloc })
  | .setStackSize =>
      some (checked s (succeeds && decide (pthreadStackMin ≤ s.stackSize))
        "pthread_attr_setstacksize" { s with main := .calloc })
  | .calloc => some (checked s succeeds "calloc" { s with main := .create 0 })
  | .create tnum =>
      match s.operands[tnum]? with
      | none => some { s with main := .attrDestroy }
      | some arg =>
          let s := { s with tinfo := s.tinfo ++ [⟨tnum + 1, arg⟩] }
          some (checked s succeeds "pthread_create"
            { s with threads := s.threads ++ [.printf], main := .create (tnum + 1) })
  | .attrDestroy =>
      some (checked s succeeds "pthread_attr_destroy" { s with main := .join 0 })
  | .join tnum =>
      if tnum < s.operands.length then
        if succeeds then
          match s.threads[tnum]? with
          | some (.returned res) => some { s with main := .printJoined tnum res }
          | _ => none
        else some (s.handleError "pthread_join")
      else some { s with main := .exit }
  | .printJoined tnum res =>
      s.tinfo[tnum]?.map fun info =>
        { s with
          output := s.output ++ [.joined info.threadNum res]
          main := .join (tnum + 1) }
  | .exit => some { s with status := some 0 }

/-- One step of the thread `i`, which has been given `info`. -/
def threadNext
    (i : Nat)
    (succeeds : Bool)
    (info : ThreadInfo) :
    ThreadStart → Option State
  | .printf =>
      some { s with
        output := s.output ++ [.thread info.threadNum info.argvString]
        threads := s.threads.set i .strdup }
  | .strdup =>
      some (checked s succeeds "strdup"
        { s with threads := s.threads.set i (.upper [] info.argvString) })
  | .upper front (c :: rest) =>
      some { s with threads := s.threads.set i (.upper (front ++ [toupper c]) rest) }
  | .upper front [] => some { s with threads := s.threads.set i (.returned front) }
  | .returned _ => none

/-- One step, as long as the process has not exited. -/
def next
    (label : Label) :
    Option State :=
  if s.status.isSome then none
  else
    match label with
    | .main succeeds => mainNext s succeeds
    | .thread i succeeds =>
        match s.tinfo[i]?, s.threads[i]? with
        | some info, some f => threadNext s i succeeds info f
        | _, _ => none

end Steps

def Allowed
    (_ : State)
    (_ : Label) :
    Prop :=
  True

instance
    (s : State)
    (label : Label) :
    Decidable (Allowed s label) :=
  inferInstanceAs (Decidable True)

def system
    (args : List Arg) :
    TransitionSystem State Label :=
  .ofProgram (fun s => s = start args) Allowed next

/-- The threads that have been started, if there are `n` of them in the end. -/
def Main.created
    (n : Nat) :
    Main → Nat
  | attrInit => 0
  | setStackSize => 0
  | calloc => 0
  | create tnum => tnum
  | _ => n

/-- The threads that have been joined and announced. -/
def Main.joined
    (n : Nat) :
    Main → Nat
  | join tnum => tnum
  | printJoined tnum _ => tnum
  | exit => n
  | _ => 0

def Line.ofJoined :
    Line → Option (Int × List UInt8)
  | thread _ _ => none
  | joined threadNum res => some (threadNum, res)

/-- The numbers and the arguments in upper case, in order. -/
def announced
    (operands : List Arg) :
    List (Int × List UInt8) :=
  operands.zipIdx.map fun p => (p.2 + 1, p.1.map toupper)

/-- What a thread has done with its argument. -/
def ThreadStart.Done
    (arg : Arg) :
    ThreadStart → Prop
  | printf => True
  | strdup => True
  | upper front rest => front ++ rest.map toupper = arg.map toupper
  | returned uargv => uargv = arg.map toupper

def ThreadStart.printed :
    ThreadStart → Bool
  | printf => false
  | _ => true

/-- The line that the thread with the place `i` prints. -/
def ownLine
    (i : Nat)
    (arg : Arg) :
    Line :=
  .thread (i + 1) arg

/-- What has been printed. -/
structure Printed
    (s : State) :
    Prop where
  joined_le : s.main.joined s.operands.length ≤ s.operands.length
  joined : s.output.filterMap Line.ofJoined =
    (announced s.operands).take (s.main.joined s.operands.length)
  once : ∀ (i : Nat) (arg : Arg), s.operands[i]? = some arg →
    s.output.count (ownLine i arg) ≤ 1
  before : ∀ (i : Nat) (arg : Arg), i < s.main.joined s.operands.length →
    s.operands[i]? = some arg → ownLine i arg ∈ s.output

/-- What holds as long as the process has not exited. -/
structure Running
    (s : State) :
    Prop where
  created_le : s.main.created s.operands.length ≤ s.operands.length
  created : s.threads.length = s.main.created s.operands.length
  tinfo_length : s.tinfo.length = s.threads.length
  tinfo : ∀ (i : Nat) (info : ThreadInfo), s.tinfo[i]? = some info →
    info.threadNum = i + 1 ∧ s.operands[i]? = some info.argvString
  done : ∀ (i : Nat) (f : ThreadStart) (arg : Arg), s.threads[i]? = some f →
    s.operands[i]? = some arg → f.Done arg
  own : ∀ (i : Nat) (arg : Arg), s.operands[i]? = some arg →
    s.output.count (ownLine i arg) =
      if s.threads[i]?.any ThreadStart.printed then 1 else 0
  returned : ∀ i, i < s.main.joined s.operands.length →
    ∃ uargv, s.threads[i]? = some (.returned uargv)
  announcing : ∀ tnum res, s.main = .printJoined tnum res →
    tnum < s.operands.length ∧ s.threads[tnum]? = some (.returned res)

section Invariant

variable {s t : State} {i : Nat} {f g : ThreadStart}

/-- The lines of different threads differ. -/
theorem ownLine_inj
    {j : Nat}
    {arg other : Arg}
    (h : ownLine i arg = ownLine j other) :
    i = j := by
  obtain ⟨hnum, -⟩ := Line.thread.inj h
  omega

theorem Printed.of_running
    (h : Running s)
    (hle : s.main.joined s.operands.length ≤ s.operands.length)
    (hjoined : s.output.filterMap Line.ofJoined =
      (announced s.operands).take (s.main.joined s.operands.length)) :
    Printed s where
  joined_le := hle
  joined := hjoined
  once i arg harg := by
    rw [h.own i arg harg]
    split_ifs <;> omega
  before i arg hi harg := by
    obtain ⟨uargv, hreturned⟩ := h.returned i hi
    have hcount := h.own i arg harg
    rw [hreturned] at hcount
    rw [← List.count_pos_iff, hcount]
    exact Nat.one_pos

/-- The main thread goes on without printing anything. -/
theorem Running.setMain
    (h : Running s)
    {main : Main}
    (hcreated : main.created s.operands.length = s.main.created s.operands.length)
    (hreturned : ∀ i, i < main.joined s.operands.length →
      ∃ uargv, s.threads[i]? = some (.returned uargv))
    (hannouncing : ∀ tnum res, main = .printJoined tnum res →
      tnum < s.operands.length ∧ s.threads[tnum]? = some (.returned res)) :
    Running { s with main := main } :=
  { h with
    created_le := by rw [hcreated]; exact h.created_le
    created := by rw [hcreated]; exact h.created
    returned := hreturned
    announcing := hannouncing }

/-- A thread that has not returned goes on. -/
theorem Running.setThread
    (h : Running s)
    (hi : s.threads[i]? = some f)
    (hnot : ∀ uargv, f ≠ .returned uargv)
    (hprinted : g.printed = f.printed)
    (hdone : ∀ arg, s.operands[i]? = some arg → g.Done arg) :
    Running { s with threads := s.threads.set i g } := by
  have hother : ∀ j, (∃ uargv, s.threads[j]? = some (.returned uargv)) → i ≠ j := by
    rintro j ⟨uargv, hj⟩ rfl
    rw [hi] at hj
    exact hnot uargv (Option.some.inj hj)
  obtain ⟨hlt, -⟩ := List.getElem?_eq_some_iff.mp hi
  refine
    { h with
      created := by rw [List.length_set]; exact h.created
      tinfo_length := by rw [List.length_set]; exact h.tinfo_length
      done := ?_
      own := ?_
      returned := ?_
      announcing := ?_ }
  · intro j f' arg hj harg
    by_cases heq : i = j
    · subst heq
      rw [List.getElem?_set_self hlt, Option.some.injEq] at hj
      subst hj
      exact hdone arg harg
    · rw [List.getElem?_set_ne heq] at hj
      exact h.done j f' arg hj harg
  · intro j arg harg
    rw [h.own j arg harg]
    by_cases heq : i = j
    · subst heq
      simp [List.getElem?_set_self hlt, hi, hprinted]
    · rw [List.getElem?_set_ne heq]
  · intro j hj
    have hreturned := h.returned j hj
    rw [List.getElem?_set_ne (hother j hreturned)]
    exact hreturned
  · intro tnum res hmain
    obtain ⟨htnum, hreturned⟩ := h.announcing tnum res hmain
    rw [List.getElem?_set_ne (hother tnum ⟨res, hreturned⟩)]
    exact ⟨htnum, hreturned⟩

/-- A thread prints its line. -/
theorem Running.print
    (h : Running s)
    {info : ThreadInfo}
    (hi : s.threads[i]? = some .printf)
    (hinfo : s.tinfo[i]? = some info) :
    Running { s with
      output := s.output ++ [.thread info.threadNum info.argvString]
      threads := s.threads.set i .strdup } := by
  obtain ⟨hnum, harg⟩ := h.tinfo i info hinfo
  have hline : Line.thread info.threadNum info.argvString = ownLine i info.argvString := by
    rw [ownLine, hnum]
  have hother : ∀ j, (∃ uargv, s.threads[j]? = some (.returned uargv)) → i ≠ j := by
    rintro j ⟨uargv, hj⟩ rfl
    rw [hi] at hj
    cases hj
  obtain ⟨hlt, -⟩ := List.getElem?_eq_some_iff.mp hi
  refine
    { h with
      created := by rw [List.length_set]; exact h.created
      tinfo_length := by rw [List.length_set]; exact h.tinfo_length
      done := ?_
      own := ?_
      returned := ?_
      announcing := ?_ }
  · intro j f' arg hj harg'
    by_cases heq : i = j
    · subst heq
      rw [List.getElem?_set_self hlt, Option.some.injEq] at hj
      subst hj
      trivial
    · rw [List.getElem?_set_ne heq] at hj
      exact h.done j f' arg hj harg'
  · intro j arg harg'
    have hcount := h.own j arg harg'
    dsimp only
    rw [hline, List.count_append, hcount]
    by_cases heq : i = j
    · subst heq
      obtain rfl := Option.some.inj (harg.symm.trans harg')
      simp [List.getElem?_set_self hlt, hi, ThreadStart.printed]
    · have hne : ownLine i info.argvString ≠ ownLine j arg := fun hsame =>
        heq (ownLine_inj hsame)
      rw [List.getElem?_set_ne heq, List.count_eq_zero_of_not_mem (by simpa using hne.symm),
        Nat.add_zero]
  · intro j hj
    have hreturned := h.returned j hj
    rw [List.getElem?_set_ne (hother j hreturned)]
    exact hreturned
  · intro tnum res hmain
    obtain ⟨htnum, hreturned⟩ := h.announcing tnum res hmain
    rw [List.getElem?_set_ne (hother tnum ⟨res, hreturned⟩)]
    exact ⟨htnum, hreturned⟩

/-- A step of a thread, if its call succeeds. -/
theorem Running.thread
    (h : Running s)
    {info : ThreadInfo}
    (hinfo : s.tinfo[i]? = some info)
    (hi : s.threads[i]? = some f)
    (hstep : threadNext s i true info f = some t) :
    Running t := by
  obtain ⟨-, harg⟩ := h.tinfo i info hinfo
  cases f with
  | printf =>
      cases hstep
      exact h.print hi hinfo
  | strdup =>
      cases hstep
      refine h.setThread hi nofun rfl fun arg harg' => ?_
      obtain rfl := Option.some.inj (harg.symm.trans harg')
      rfl
  | upper front rest =>
      have hbefore := h.done i _ _ hi harg
      cases rest with
      | nil =>
          cases hstep
          refine h.setThread hi nofun rfl fun arg harg' => ?_
          obtain rfl := Option.some.inj (harg.symm.trans harg')
          simpa [ThreadStart.Done] using hbefore
      | cons c rest =>
          cases hstep
          refine h.setThread hi nofun rfl fun arg harg' => ?_
          obtain rfl := Option.some.inj (harg.symm.trans harg')
          simpa [ThreadStart.Done] using hbefore
  | returned uargv =>
      cases hstep

/-- The entries of a list that has been extended. -/
theorem getElem?_concat
    {α : Type}
    {l : List α}
    {a b : α}
    (h : (l ++ [a])[i]? = some b) :
    l[i]? = some b ∨ (i = l.length ∧ a = b) := by
  rcases Nat.lt_or_ge i l.length with hlt | hge
  · rw [List.getElem?_append_left hlt] at h
    exact Or.inl h
  · rw [List.getElem?_append_right hge, List.getElem?_singleton] at h
    split_ifs at h with hzero
    exact Or.inr ⟨by omega, Option.some.inj h⟩

/-- The next thread is started. -/
theorem Running.create
    (h : Running s)
    {tnum : Nat}
    {arg : Arg}
    (hmain : s.main = .create tnum)
    (harg : s.operands[tnum]? = some arg) :
    Running { s with
      tinfo := s.tinfo ++ [⟨tnum + 1, arg⟩]
      threads := s.threads ++ [.printf]
      main := .create (tnum + 1) } := by
  have hlength : s.threads.length = tnum := by
    rw [h.created, hmain]
    rfl
  have htinfo : s.tinfo.length = tnum := by
    rw [h.tinfo_length, hlength]
  obtain ⟨hlt, -⟩ := List.getElem?_eq_some_iff.mp harg
  refine
    { created_le := hlt
      created := by rw [List.length_append, hlength]; rfl
      tinfo_length := by rw [List.length_append, List.length_append, h.tinfo_length]; rfl
      tinfo := ?_
      done := ?_
      own := ?_
      returned := fun j hj => absurd hj (Nat.not_lt_zero j)
      announcing := fun _ _ hpc => nomatch hpc }
  · intro j info hj
    rcases getElem?_concat hj with hold | ⟨rfl, rfl⟩
    · exact h.tinfo j info hold
    · rw [htinfo]
      exact ⟨rfl, harg⟩
  · intro j f' arg' hj harg'
    rcases getElem?_concat hj with hold | ⟨-, rfl⟩
    · exact h.done j f' arg' hold harg'
    · trivial
  · intro j arg' harg'
    rw [h.own j arg' harg']
    dsimp only
    rcases Nat.lt_trichotomy j s.threads.length with hj | rfl | hj
    · rw [List.getElem?_append_left hj]
    · simp [ThreadStart.printed]
    · rw [List.getElem?_eq_none (Nat.le_of_lt hj), List.getElem?_eq_none]
      rw [List.length_append]
      exact hj

/-- `main` announces a thread that it has joined. -/
theorem Running.announce
    (h : Running s)
    {tnum : Nat}
    {res : List UInt8}
    {info : ThreadInfo}
    (hmain : s.main = .printJoined tnum res)
    (hinfo : s.tinfo[tnum]? = some info) :
    Running { s with
      output := s.output ++ [.joined info.threadNum res]
      main := .join (tnum + 1) } := by
  obtain ⟨hlt, hreturned⟩ := h.announcing tnum res hmain
  have hcreated : s.main.created s.operands.length = s.operands.length := by
    rw [hmain]
    rfl
  refine
    { h with
      created_le := Nat.le_refl _
      created := by rw [h.created, hcreated]; rfl
      own := ?_
      returned := ?_
      announcing := fun _ _ hpc => nomatch hpc }
  · intro j arg harg
    have hcount := h.own j arg harg
    dsimp only
    rw [List.count_append, hcount, List.count_eq_zero_of_not_mem (by simp [ownLine]),
      Nat.add_zero]
  · intro j hj
    rcases Nat.lt_or_eq_of_le (Nat.le_of_lt_succ hj) with hbefore | rfl
    · exact h.returned j (by rw [hmain]; exact hbefore)
    · exact ⟨res, hreturned⟩

theorem Printed.congr
    (h : Printed s)
    (hmain : t.main = s.main)
    (hoperands : t.operands = s.operands)
    (houtput : t.output = s.output) :
    Printed t where
  joined_le := by rw [hmain, hoperands]; exact h.joined_le
  joined := by rw [hmain, hoperands, houtput]; exact h.joined
  once := by rw [hoperands, houtput]; exact h.once
  before := by rw [hmain, hoperands, houtput]; exact h.before

structure Inv
    (s : State) :
    Prop where
  printed : Printed s
  running : s.status = none → Running s
  exited : s.status = some 0 → s.main = .exit

/-- The state with which a run goes on. -/
theorem Inv.of_running
    (h : Running s)
    (hstatus : s.status = none)
    (hle : s.main.joined s.operands.length ≤ s.operands.length)
    (hjoined : s.output.filterMap Line.ofJoined =
      (announced s.operands).take (s.main.joined s.operands.length)) :
    Inv s where
  printed := .of_running h hle hjoined
  running _ := h
  exited hzero := by rw [hstatus] at hzero; cases hzero

theorem Inv.handleError
    (h : Printed s)
    (msg : String) :
    Inv (s.handleError msg) where
  printed := h.congr rfl rfl rfl
  running hstatus := nomatch hstatus
  exited hstatus := nomatch hstatus

theorem Inv.checked
    (h : Printed s)
    (ht : Inv t)
    (succeeds : Bool)
    (msg : String) :
    Inv (checked s succeeds msg t) := by
  cases succeeds with
  | true =>
      exact ht
  | false =>
      exact .handleError h msg

/-- The main thread goes on without printing or announcing anything. -/
theorem Inv.setMain
    (h : Inv s)
    (hstatus : s.status = none)
    {main : Main}
    (hcreated : main.created s.operands.length = s.main.created s.operands.length)
    (hjoined : main.joined s.operands.length = s.main.joined s.operands.length)
    (hannouncing : ∀ tnum res, main = .printJoined tnum res →
      tnum < s.operands.length ∧ s.threads[tnum]? = some (.returned res)) :
    Inv { s with main := main } :=
  .of_running
    ((h.running hstatus).setMain hcreated (by rw [hjoined]; exact (h.running hstatus).returned)
      hannouncing)
    hstatus
    (by rw [hjoined]; exact h.printed.joined_le)
    (by rw [hjoined]; exact h.printed.joined)

theorem getElem?_announced
    {operands : List Arg}
    {arg : Arg}
    (h : operands[i]? = some arg) :
    (announced operands)[i]? = some ((i : Int) + 1, arg.map toupper) := by
  simp [announced, List.getElem?_map, List.getElem?_zipIdx, h]

theorem Inv.announce
    (h : Inv s)
    (hstatus : s.status = none)
    {tnum : Nat}
    {res : List UInt8}
    {info : ThreadInfo}
    (hmain : s.main = .printJoined tnum res)
    (hinfo : s.tinfo[tnum]? = some info) :
    Inv { s with
      output := s.output ++ [.joined info.threadNum res]
      main := .join (tnum + 1) } := by
  have hrunning := h.running hstatus
  obtain ⟨hlt, hreturned⟩ := hrunning.announcing tnum res hmain
  obtain ⟨hnum, harg⟩ := hrunning.tinfo tnum info hinfo
  have hres : res = info.argvString.map toupper := hrunning.done tnum _ _ hreturned harg
  have hjoined := h.printed.joined
  rw [hmain] at hjoined
  refine .of_running (hrunning.announce hmain hinfo) hstatus hlt ?_
  show (s.output ++ [Line.joined info.threadNum res]).filterMap Line.ofJoined =
    (announced s.operands).take (tnum + 1)
  rw [List.filterMap_append, hjoined, List.take_add_one, getElem?_announced harg, hnum, hres]
  rfl

/-- One step of `main`. -/
theorem Inv.main
    (h : Inv s)
    (hstatus : s.status = none)
    {succeeds : Bool}
    (hstep : mainNext s succeeds = some t) :
    Inv t := by
  have hrunning := h.running hstatus
  unfold mainNext at hstep
  cases hmain : s.main with
  | attrInit =>
      rw [hmain] at hstep
      cases hstep
      refine .checked h.printed (h.setMain hstatus ?_ ?_ ?_) succeeds _
      · rw [hmain]
        split_ifs <;> rfl
      · rw [hmain]
        split_ifs <;> rfl
      · intro tnum res hpc
        split_ifs at hpc
  | setStackSize =>
      rw [hmain] at hstep
      cases hstep
      refine .checked h.printed (h.setMain hstatus ?_ ?_ ?_) _ _
      · rw [hmain]
        rfl
      · rw [hmain]
        rfl
      · nofun
  | calloc =>
      rw [hmain] at hstep
      cases hstep
      refine .checked h.printed (h.setMain hstatus ?_ ?_ ?_) succeeds _
      · rw [hmain]
        rfl
      · rw [hmain]
        rfl
      · nofun
  | create tnum =>
      rw [hmain] at hstep
      have hjoined : s.main.joined s.operands.length = 0 := by
        rw [hmain]
        rfl
      cases harg : s.operands[tnum]? with
      | none =>
          simp only [harg, Option.some.injEq] at hstep
          subst hstep
          have hle := hrunning.created_le
          have hge := List.getElem?_eq_none_iff.mp harg
          rw [hmain] at hle
          refine h.setMain hstatus ?_ hjoined.symm nofun
          rw [hmain]
          exact Nat.le_antisymm hge hle
      | some arg =>
          simp only [harg, Option.some.injEq] at hstep
          subst hstep
          have hprinted := h.printed.joined
          rw [hjoined] at hprinted
          refine .checked ?_
            (.of_running (hrunning.create hmain harg) hstatus (Nat.zero_le _) hprinted) succeeds _
          exact h.printed.congr hmain.symm rfl rfl
  | attrDestroy =>
      rw [hmain] at hstep
      cases hstep
      refine .checked h.printed (h.setMain hstatus ?_ ?_ ?_) succeeds _
      · rw [hmain]
        rfl
      · rw [hmain]
        rfl
      · nofun
  | join tnum =>
      rw [hmain] at hstep
      dsimp only at hstep
      split_ifs at hstep with hlt hsucceeds
      · split at hstep
        · next res hreturned =>
            cases hstep
            refine h.setMain hstatus (by rw [hmain]; rfl) (by rw [hmain]; rfl) ?_
            rintro _ _ ⟨rfl, rfl⟩
            exact ⟨hlt, hreturned⟩
        · cases hstep
      · cases hstep
        exact .handleError h.printed _
      · cases hstep
        have hle := h.printed.joined_le
        rw [hmain] at hle
        have htnum : tnum = s.operands.length := by
          simp only [Main.joined] at hle
          omega
        refine h.setMain hstatus (by rw [hmain]; rfl) ?_ nofun
        rw [hmain, Main.joined, Main.joined, htnum]
  | printJoined tnum res =>
      rw [hmain] at hstep
      obtain ⟨info, hinfo, rfl⟩ := Option.map_eq_some_iff.mp hstep
      exact h.announce hstatus hmain hinfo
  | exit =>
      rw [hmain] at hstep
      cases hstep
      exact
        { printed := h.printed.congr hmain.symm rfl rfl
          running := fun hnone => nomatch hnone
          exited := fun _ => rfl }

/-- Threads announce nothing. -/
theorem ofJoined_of_thread
    {info : ThreadInfo}
    (hstep : threadNext s i true info f = some t) :
    t.main = s.main ∧
    t.operands = s.operands ∧
    t.status = s.status ∧
    t.output.filterMap Line.ofJoined = s.output.filterMap Line.ofJoined := by
  cases f with
  | printf =>
      cases hstep
      exact ⟨rfl, rfl, rfl, by simp [List.filterMap_append, Line.ofJoined]⟩
  | upper front rest =>
      cases rest <;> cases hstep <;> exact ⟨rfl, rfl, rfl, rfl⟩
  | _ =>
      cases hstep
      try exact ⟨rfl, rfl, rfl, rfl⟩

theorem Inv.thread
    (h : Inv s)
    (hstatus : s.status = none)
    {info : ThreadInfo}
    (hinfo : s.tinfo[i]? = some info)
    (hi : s.threads[i]? = some f)
    {succeeds : Bool}
    (hstep : threadNext s i succeeds info f = some t) :
    Inv t := by
  by_cases hfails : succeeds = false ∧ f = .strdup
  · obtain ⟨rfl, rfl⟩ := hfails
    cases hstep
    exact .handleError h.printed _
  · have hsame : threadNext s i succeeds info f = threadNext s i true info f := by
      cases f with
      | strdup =>
          have hsucceeds : succeeds = true := by
            simpa using hfails
          rw [hsucceeds]
      | upper front rest =>
          cases rest <;> rfl
      | _ =>
          rfl
    rw [hsame] at hstep
    obtain ⟨hmain, hoperands, hsame, hjoined⟩ := ofJoined_of_thread hstep
    refine .of_running ((h.running hstatus).thread hinfo hi hstep) (hsame.trans hstatus) ?_ ?_
    · rw [hmain, hoperands]
      exact h.printed.joined_le
    · rw [hmain, hoperands, hjoined]
      exact h.printed.joined

theorem Inv.step
    (h : Inv s)
    {label : Label}
    (hstep : next s label = some t) :
    Inv t := by
  unfold next at hstep
  split_ifs at hstep with hexited
  have hstatus : s.status = none := by simpa using hexited
  cases label with
  | main succeeds =>
      exact h.main hstatus hstep
  | thread i succeeds =>
      dsimp only at hstep
      split at hstep
      · next info f hinfo hi =>
          exact h.thread hstatus hinfo hi hstep
      · cases hstep

theorem inv_start
    (args : List Arg) :
    Inv (start args) := by
  unfold start
  cases Getopt.parse known none args with
  | none =>
      exact
        { printed :=
            { joined_le := Nat.zero_le _
              joined := rfl
              once := fun _ _ harg => nomatch harg
              before := fun _ _ hi => nomatch hi }
          running := fun hstatus => nomatch hstatus
          exited := fun hstatus => nomatch hstatus }
  | some r =>
      have hrunning :
          Running ⟨.attrInit, stackSize r.options, r.operands, [], [], [], [], none⟩ :=
        { created_le := Nat.zero_le _
          created := rfl
          tinfo_length := rfl
          tinfo := fun _ _ hinfo => nomatch hinfo
          done := fun _ _ _ hf => nomatch hf
          own := fun _ _ _ => rfl
          returned := fun i hi => absurd hi (Nat.not_lt_zero i)
          announcing := fun _ _ hpc => nomatch hpc }
      exact .of_running hrunning rfl (Nat.zero_le _) rfl

theorem inv_of_reachable
    {args : List Arg}
    (h : (system args).Reachable s) :
    Inv s := by
  refine h.invariant ?_ ?_
  · rintro _ rfl
    exact inv_start args
  · rintro s label t hs ⟨-, hstep⟩
    exact hs.step hstep

/-- The options and the arguments stay what they are. -/
def SameArguments
    (s t : State) :
    Prop :=
  t.operands = s.operands ∧ t.stackSize = s.stackSize

theorem sameArguments_checked
    (h : SameArguments s t)
    (succeeds : Bool)
    (msg : String) :
    SameArguments s (checked s succeeds msg t) := by
  cases succeeds with
  | true =>
      exact h
  | false =>
      exact ⟨rfl, rfl⟩

theorem sameArguments_of_main
    {succeeds : Bool}
    (hstep : mainNext s succeeds = some t) :
    SameArguments s t := by
  unfold mainNext at hstep
  cases hmain : s.main with
  | create tnum =>
      rw [hmain] at hstep
      dsimp only at hstep
      split at hstep
      · cases hstep
        exact ⟨rfl, rfl⟩
      · cases hstep
        cases succeeds <;> exact ⟨rfl, rfl⟩
  | join tnum =>
      rw [hmain] at hstep
      dsimp only at hstep
      split_ifs at hstep
      · split at hstep <;> cases hstep
        exact ⟨rfl, rfl⟩
      · cases hstep
        exact ⟨rfl, rfl⟩
      · cases hstep
        exact ⟨rfl, rfl⟩
  | printJoined tnum res =>
      rw [hmain] at hstep
      obtain ⟨info, -, rfl⟩ := Option.map_eq_some_iff.mp hstep
      exact ⟨rfl, rfl⟩
  | exit =>
      rw [hmain] at hstep
      cases hstep
      exact ⟨rfl, rfl⟩
  | _ =>
      rw [hmain] at hstep
      cases hstep
      refine sameArguments_checked ?_ _ _
      exact ⟨rfl, rfl⟩

theorem frame_of_thread
    {info : ThreadInfo}
    {succeeds : Bool}
    (hstep : threadNext s i succeeds info f = some t) :
    SameArguments s t ∧ t.main = s.main := by
  cases f with
  | upper front rest =>
      cases rest <;> cases hstep <;> exact ⟨⟨rfl, rfl⟩, rfl⟩
  | returned =>
      cases hstep
  | _ =>
      cases succeeds <;> cases hstep <;> exact ⟨⟨rfl, rfl⟩, rfl⟩

theorem sameArguments_of_step
    {label : Label}
    (hstep : next s label = some t) :
    SameArguments s t := by
  unfold next at hstep
  split_ifs at hstep
  cases label with
  | main succeeds =>
      exact sameArguments_of_main hstep
  | thread i succeeds =>
      dsimp only at hstep
      split at hstep
      · exact (frame_of_thread hstep).1
      · cases hstep

theorem operands_of_reachable
    {args : List Arg}
    (h : (system args).Reachable s) :
    s.operands = (start args).operands := by
  refine h.invariant (I := fun s => s.operands = (start args).operands) ?_ ?_
  · rintro _ rfl
    rfl
  · rintro s label t hs ⟨-, hstep⟩
    exact (sameArguments_of_step hstep).1.trans hs

end Invariant

end SetStackSize
end Threads
end OsSeminars
