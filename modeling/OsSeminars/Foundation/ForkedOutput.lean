import OsSeminars.Foundation.OutStream
import OsSeminars.Foundation.TransitionSystem

/-!
# Foundation: a parent and a child that print

After `fork` the two processes run independently of each other. Each of them has a copy of
the output stream with everything that has been printed and not passed on yet, and both
streams lead to the same open file, so what is passed on appears in the order of the calls.
A process passes on what is left when it ends. The parent may wait for the child in between;
when it has ended before the child, the child belongs to `init`.

Which outputs can appear is described by merging what the two processes pass on.
-/

namespace OsSeminars
namespace Foundation

universe u

section Merging

variable {α : Type u}

/-- The third list consists of the first two, each of them in its order. -/
inductive Merged : List α → List α → List α → Prop
  | nil :
      Merged [] [] []
  | left {x : α} {xs ys zs : List α} :
      Merged xs ys zs →
      Merged (x :: xs) ys (x :: zs)
  | right {y : α} {xs ys zs : List α} :
      Merged xs ys zs →
      Merged xs (y :: ys) (y :: zs)

@[simp] theorem merged_nil_left_iff
    {ys zs : List α} :
    Merged [] ys zs ↔ zs = ys := by
  induction ys generalizing zs with
  | nil =>
      constructor
      · intro h
        cases h
        rfl
      · rintro rfl
        exact Merged.nil
  | cons y ys ih =>
      constructor
      · intro h
        cases h with
        | right hrest =>
            rw [ih.mp hrest]
      · rintro rfl
        exact Merged.right (ih.mpr rfl)

@[simp] theorem merged_nil_right_iff
    {xs zs : List α} :
    Merged xs [] zs ↔ zs = xs := by
  induction xs generalizing zs with
  | nil =>
      exact merged_nil_left_iff
  | cons x xs ih =>
      constructor
      · intro h
        cases h with
        | left hrest =>
            rw [ih.mp hrest]
      · rintro rfl
        exact Merged.left (ih.mpr rfl)

/-- The texts of two processes, one behind the other. -/
def Joined
    (xs ys : List (List α))
    (joined : List α) :
    Prop :=
  ∃ texts, Merged xs ys texts ∧ joined = texts.flatten

variable {xs ys : List (List α)} {joined : List α}

theorem Joined.left
    (h : Joined xs ys joined)
    (x : List α) :
    Joined (x :: xs) ys (x ++ joined) := by
  obtain ⟨texts, hmerged, rfl⟩ := h
  exact ⟨x :: texts, Merged.left hmerged, rfl⟩

theorem Joined.right
    (h : Joined xs ys joined)
    (y : List α) :
    Joined xs (y :: ys) (y ++ joined) := by
  obtain ⟨texts, hmerged, rfl⟩ := h
  exact ⟨y :: texts, Merged.right hmerged, rfl⟩

/-- Where the joined texts come from. -/
theorem joined_iff :
    Joined xs ys joined ↔
      (xs = [] ∧ ys = [] ∧ joined = []) ∨
      (∃ x xs' rest, xs = x :: xs' ∧ joined = x ++ rest ∧ Joined xs' ys rest) ∨
      ∃ y ys' rest, ys = y :: ys' ∧ joined = y ++ rest ∧ Joined xs ys' rest := by
  constructor
  · rintro ⟨texts, hmerged, rfl⟩
    cases hmerged with
    | nil =>
        exact Or.inl ⟨rfl, rfl, rfl⟩
    | left hrest =>
        exact Or.inr (Or.inl ⟨_, _, _, rfl, rfl, _, hrest, rfl⟩)
    | right hrest =>
        exact Or.inr (Or.inr ⟨_, _, _, rfl, rfl, _, hrest, rfl⟩)
  · rintro (⟨rfl, rfl, rfl⟩ | ⟨x, xs, rest, rfl, rfl, hrest⟩ | ⟨y, ys, rest, rfl, rfl, hrest⟩)
    · exact ⟨[], Merged.nil, rfl⟩
    · exact hrest.left x
    · exact hrest.right y

@[simp] theorem joined_nil_left_iff :
    Joined [] ys joined ↔ joined = ys.flatten := by
  simp [Joined]

@[simp] theorem joined_nil_right_iff :
    Joined xs [] joined ↔ joined = xs.flatten := by
  simp [Joined]

/-- A process that passes nothing on cannot be seen. -/
@[simp] theorem joined_cons_nil_left_iff :
    Joined ([] :: xs) ys joined ↔ Joined xs ys joined := by
  constructor
  · intro h
    induction ys generalizing joined with
    | nil =>
        simpa using h
    | cons y ys ih =>
        rcases joined_iff.mp h with ⟨hnil, -⟩ | ⟨x, xs', rest, hcons, rfl, hrest⟩ |
          ⟨y', ys', rest, hcons, rfl, hrest⟩
        · cases hnil
        · cases hcons
          exact hrest
        · cases hcons
          exact (ih hrest).right y
  · intro h
    exact h.left []

@[simp] theorem joined_cons_nil_right_iff :
    Joined xs ([] :: ys) joined ↔ Joined xs ys joined := by
  constructor
  · intro h
    induction xs generalizing joined with
    | nil =>
        simpa using h
    | cons x xs ih =>
        rcases joined_iff.mp h with ⟨-, hnil, -⟩ | ⟨x', xs', rest, hcons, rfl, hrest⟩ |
          ⟨y, ys', rest, hcons, rfl, hrest⟩
        · cases hnil
        · cases hcons
          exact (ih hrest).left x
        · cases hcons
          exact hrest
  · intro h
    exact h.right []

theorem joined_cons_cons_iff
    {x y : List α} :
    Joined (x :: xs) (y :: ys) joined ↔
      (∃ rest, joined = x ++ rest ∧ Joined xs (y :: ys) rest) ∨
        ∃ rest, joined = y ++ rest ∧ Joined (x :: xs) ys rest := by
  constructor
  · intro h
    rcases joined_iff.mp h with ⟨hnil, -⟩ | ⟨x', xs', rest, hcons, rfl, hrest⟩ |
      ⟨y', ys', rest, hcons, rfl, hrest⟩
    · cases hnil
    · cases hcons
      exact Or.inl ⟨rest, rfl, hrest⟩
    · cases hcons
      exact Or.inr ⟨rest, rfl, hrest⟩
  · rintro (⟨rest, rfl, hrest⟩ | ⟨rest, rfl, hrest⟩)
    · exact hrest.left x
    · exact hrest.right y

end Merging

namespace ForkedOutput

/-- The text may depend on a number that the process asks for: the child on the id of its
parent, the parent on the status of the child it has waited for. -/
inductive Command
  | printf (text : Nat → List UInt8)
  | sleep

/-- A process ends when its commands have been carried out. -/
inductive Proc
  | running (script : List Command) (stdout : OutStream)
  | ended

structure Program where
  /-- the standard output is a terminal -/
  terminal : Bool
  /-- the stream when `fork` is called -/
  stream : OutStream
  parent : List Command
  /-- the commands behind `waitpid`, if the parent waits -/
  wait : Option (List Command)
  child : List Command
  /-- the commands of the only process when `fork` fails -/
  failed : List Command
  parentPid : Nat
  initPid : Nat
  status : Nat

structure State where
  parent : Proc
  wait : Option (List Command)
  child : Proc
  /-- the parent has waited for the child -/
  reaped : Bool
  output : List UInt8

inductive Label
  | parent
  | child
  deriving DecidableEq

def Command.perform
    (terminal : Bool)
    (ask : Nat)
    (st : OutStream) :
    Command → List UInt8 × OutStream
  | printf text => st.put terminal (text ask)
  | sleep => ([], st)

def Proc.isEnded : Proc → Bool
  | running _ _ => false
  | ended => true

/-- One step of a process: what it passes on, and what becomes of it. -/
def Proc.perform
    (terminal : Bool)
    (ask : Nat) :
    Proc → Option (List UInt8 × Proc)
  | running [] st => some (st.flush.1, ended)
  | running (command :: rest) st =>
      let r := command.perform terminal ask st
      some (r.1, running rest r.2)
  | ended => none

section Steps

variable (c : Program) (s : State)

/-- `WEXITSTATUS` of the status that `waitpid` has stored. -/
def asked :
    Nat :=
  if s.reaped then c.status else 0

/-- `getppid()` of the child. -/
def getppid :
    Nat :=
  if s.parent.isEnded then c.initPid else c.parentPid

/-- `waitpid`, which returns when the child has ended. -/
def waited
    (after : List Command)
    (st : OutStream) :
    Option State :=
  if s.child.isEnded then
    some { s with parent := .running after st, wait := none, reaped := true }
  else none

def parentNext :
    Option State :=
  match s.parent, s.wait with
  | .running [] st, some after => waited s after st
  | p, _ =>
      (p.perform c.terminal (asked c s)).map fun (text, q) =>
        { s with parent := q, output := s.output ++ text }

def childNext :
    Option State :=
  (s.child.perform c.terminal (getppid c s)).map fun (text, q) =>
    { s with child := q, output := s.output ++ text }

def next :
    Label → Option State
  | .parent => parentNext c s
  | .child => childNext c s

end Steps

/-- Behind the call of `fork`, which may fail. -/
def start
    (c : Program)
    (forked : Bool) :
    State where
  parent := .running (if forked then c.parent else c.failed) c.stream
  wait := if forked then c.wait else none
  child := if forked then .running c.child c.stream else .ended
  reaped := false
  output := []

def Allowed
    (_ : State)
    (_ : Label) :
    Prop :=
  True

instance
    (s : State)
    (label : Label) :
    Decidable (Allowed s label) :=
  inferInstanceAs (Decidable True)

def system
    (c : Program)
    (forked : Bool) :
    TransitionSystem State Label :=
  .ofProgram (fun s => s = start c forked) Allowed (next c)

/-- Both processes have ended. -/
def State.Finished
    (s : State) :
    Prop :=
  s.parent = .ended ∧ s.child = .ended

section Texts

variable (terminal : Bool) (ask : Nat)

/-- What the commands pass on, one by one. -/
def printed :
    List Command → OutStream → List (List UInt8)
  | [], _ => []
  | command :: rest, st =>
      (command.perform terminal ask st).1 ::
        printed rest (command.perform terminal ask st).2

/-- The stream behind the commands. -/
def streamBehind :
    List Command → OutStream → OutStream
  | [], st => st
  | command :: rest, st => streamBehind rest (command.perform terminal ask st).2

/-- What a process passes on until it has ended. -/
def Proc.toExit : Proc → List (List UInt8)
  | running script st =>
      printed terminal ask script st ++ [(streamBehind terminal ask script st).flush.1]
  | ended => []

/-- What a process passes on in its next steps, and what becomes of it. -/
def Proc.run :
    Nat → Proc → List (List UInt8) × Proc
  | 0, p => ([], p)
  | k + 1, p =>
      match p.perform terminal ask with
      | none => ([], p)
      | some (text, q) => (text :: (q.run k).1, (q.run k).2)

end Texts

section Computing

variable {terminal : Bool} {ask : Nat} {st : OutStream} {script : List Command}

@[simp] theorem perform_printf
    (text : Nat → List UInt8) :
    Command.perform terminal ask st (.printf text) = st.put terminal (text ask) :=
  rfl

@[simp] theorem perform_sleep :
    Command.perform terminal ask st .sleep = ([], st) :=
  rfl

@[simp] theorem printed_nil :
    printed terminal ask [] st = [] :=
  rfl

@[simp] theorem printed_cons
    (command : Command) :
    printed terminal ask (command :: script) st =
      (command.perform terminal ask st).1 ::
        printed terminal ask script (command.perform terminal ask st).2 :=
  rfl

@[simp] theorem streamBehind_nil :
    streamBehind terminal ask [] st = st :=
  rfl

@[simp] theorem streamBehind_cons
    (command : Command) :
    streamBehind terminal ask (command :: script) st =
      streamBehind terminal ask script (command.perform terminal ask st).2 :=
  rfl

@[simp] theorem toExit_ended :
    Proc.ended.toExit terminal ask = [] :=
  rfl

@[simp] theorem toExit_running :
    (Proc.running script st).toExit terminal ask =
      printed terminal ask script st ++ [(streamBehind terminal ask script st).pending] :=
  rfl

@[simp] theorem run_zero
    (p : Proc) :
    p.run terminal ask 0 = ([], p) :=
  rfl

@[simp] theorem run_ended
    (k : Nat) :
    Proc.ended.run terminal ask k = ([], .ended) := by
  cases k <;> rfl

@[simp] theorem run_exit
    (k : Nat) :
    (Proc.running [] st).run terminal ask (k + 1) = ([st.pending], .ended) := by
  rw [Proc.run]
  simp only [Proc.perform, run_ended]
  rfl

@[simp] theorem run_command
    (command : Command)
    (k : Nat) :
    (Proc.running (command :: script) st).run terminal ask (k + 1) =
      let r := command.perform terminal ask st
      let later := (Proc.running script r.2).run terminal ask k
      (r.1 :: later.1, later.2) :=
  rfl

end Computing

section Processes

variable {terminal : Bool} {ask : Nat} {p q : Proc} {text : List UInt8}

theorem perform_eq_none_iff :
    p.perform terminal ask = none ↔ p = .ended := by
  cases p with
  | ended =>
      simp [Proc.perform]
  | running script st =>
      cases script <;> simp [Proc.perform]

theorem toExit_of_perform
    (h : p.perform terminal ask = some (text, q)) :
    p.toExit terminal ask = text :: q.toExit terminal ask := by
  cases p with
  | ended =>
      cases h
  | running script st =>
      cases script <;> cases h <;> rfl

theorem run_of_perform
    (h : p.perform terminal ask = some (text, q))
    (k : Nat) :
    p.run terminal ask (k + 1) =
      (text :: (q.run terminal ask k).1, (q.run terminal ask k).2) := by
  rw [Proc.run, h]

/-- Nothing has been passed on, so nothing has happened. -/
theorem run_of_nil
    {k : Nat}
    (h : (p.run terminal ask k).1 = []) :
    (p.run terminal ask k).2 = p := by
  cases k with
  | zero =>
      rfl
  | succ k =>
      cases hstep : p.perform terminal ask with
      | none =>
          rw [Proc.run, hstep]
      | some r =>
          rw [run_of_perform hstep] at h
          cases h

/-- The first thing that has been passed on comes from the first step. -/
theorem perform_of_run
    {k : Nat}
    {texts : List (List UInt8)}
    (h : (p.run terminal ask k).1 = text :: texts) :
    ∃ q j, p.perform terminal ask = some (text, q) ∧
      (q.run terminal ask j).1 = texts ∧
      (q.run terminal ask j).2 = (p.run terminal ask k).2 := by
  cases k with
  | zero =>
      cases h
  | succ k =>
      cases hstep : p.perform terminal ask with
      | none =>
          rw [Proc.run, hstep] at h
          cases h
      | some r =>
          rw [run_of_perform hstep] at h ⊢
          obtain ⟨rfl, rfl⟩ := List.cons.inj h
          exact ⟨r.2, k, rfl, rfl, rfl⟩

theorem perform_of_toExit
    {texts : List (List UInt8)}
    (h : p.toExit terminal ask = text :: texts) :
    ∃ q, p.perform terminal ask = some (text, q) ∧ q.toExit terminal ask = texts := by
  cases hstep : p.perform terminal ask with
  | none =>
      rw [perform_eq_none_iff.mp hstep] at h
      cases h
  | some r =>
      rw [toExit_of_perform hstep] at h
      obtain ⟨rfl, rfl⟩ := List.cons.inj h
      exact ⟨r.2, rfl, rfl⟩

theorem toExit_eq_nil_iff :
    p.toExit terminal ask = [] ↔ p = .ended := by
  cases p with
  | ended =>
      simp [Proc.toExit]
  | running script st =>
      simp [Proc.toExit]

end Processes

/-- What can still appear while the parent is in front of its `waitpid`. -/
def BeforeWait
    (c : Program)
    (script after : List Command)
    (st : OutStream)
    (child : Proc)
    (rest : List UInt8) :
    Prop :=
  ∃ front,
    Joined (printed c.terminal 0 script st) (child.toExit c.terminal c.parentPid) front ∧
    rest = front ++
      (Proc.toExit c.terminal c.status
        (.running after (streamBehind c.terminal 0 script st))).flatten

/-- What can still appear when the parent does not wait: the child takes some steps before
the end of the parent. -/
def Unawaited
    (c : Program)
    (script : List Command)
    (st : OutStream)
    (child : Proc)
    (rest : List UInt8) :
    Prop :=
  ∃ k front,
    Joined (printed c.terminal 0 script st) (child.run c.terminal c.parentPid k).1 front ∧
    rest = front ++ (streamBehind c.terminal 0 script st).flush.1 ++
      ((child.run c.terminal c.parentPid k).2.toExit c.terminal c.initPid).flatten

section Choices

variable {c : Program} {script after : List Command} {st : OutStream} {child : Proc}
variable {rest : List UInt8}

theorem printed_eq_nil_iff
    {terminal : Bool}
    {ask : Nat} :
    printed terminal ask script st = [] ↔ script = [] := by
  cases script <;> simp [printed]

theorem printed_eq_cons_iff
    {terminal : Bool}
    {ask : Nat}
    {text : List UInt8}
    {texts : List (List UInt8)} :
    printed terminal ask script st = text :: texts ↔
      ∃ command script', script = command :: script' ∧
        text = (command.perform terminal ask st).1 ∧
        texts = printed terminal ask script' (command.perform terminal ask st).2 := by
  cases script with
  | nil =>
      simp [printed]
  | cons command script =>
      simp only [printed, List.cons.injEq]
      constructor
      · rintro ⟨rfl, rfl⟩
        exact ⟨_, _, ⟨rfl, rfl⟩, rfl, rfl⟩
      · rintro ⟨_, _, ⟨rfl, rfl⟩, rfl, rfl⟩
        exact ⟨rfl, rfl⟩

/-- The wait is over, or the parent or the child takes a step. -/
theorem beforeWait_iff :
    BeforeWait c script after st child rest ↔
      (script = [] ∧ child = .ended ∧
        rest = (Proc.toExit c.terminal c.status (.running after st)).flatten) ∨
      (∃ command script' rest', script = command :: script' ∧
        rest = (command.perform c.terminal 0 st).1 ++ rest' ∧
        BeforeWait c script' after (command.perform c.terminal 0 st).2 child rest') ∨
      ∃ text q rest', child.perform c.terminal c.parentPid = some (text, q) ∧
        rest = text ++ rest' ∧ BeforeWait c script after st q rest' := by
  constructor
  · rintro ⟨front, hjoined, rfl⟩
    rcases joined_iff.mp hjoined with ⟨hparent, hchild, rfl⟩ |
      ⟨text, texts, front', hparent, rfl, hrest⟩ | ⟨text, texts, front', hchild, rfl, hrest⟩
    · obtain rfl := printed_eq_nil_iff.mp hparent
      exact Or.inl ⟨rfl, toExit_eq_nil_iff.mp hchild, rfl⟩
    · obtain ⟨command, script', rfl, rfl, rfl⟩ := printed_eq_cons_iff.mp hparent
      refine Or.inr (Or.inl ⟨command, script', _, rfl, ?_, front', hrest, rfl⟩)
      simp [streamBehind]
    · obtain ⟨q, hq, rfl⟩ := perform_of_toExit hchild
      exact Or.inr (Or.inr ⟨text, q, _, hq, List.append_assoc _ _ _, front', hrest, rfl⟩)
  · rintro (⟨rfl, rfl, rfl⟩ | ⟨command, script', rest', rfl, rfl, front, hjoined, rfl⟩ |
      ⟨text, q, rest', hq, rfl, front, hjoined, rfl⟩)
    · exact ⟨[], by simp [printed, Proc.toExit], by simp [streamBehind]⟩
    · exact ⟨_, hjoined.left _, by simp [streamBehind]⟩
    · refine ⟨text ++ front, ?_, (List.append_assoc _ _ _).symm⟩
      rw [toExit_of_perform hq]
      exact hjoined.right text

/-- The parent ends, or the parent or the child takes a step. -/
theorem unawaited_iff :
    Unawaited c script st child rest ↔
      (script = [] ∧
        rest = st.flush.1 ++ (child.toExit c.terminal c.initPid).flatten) ∨
      (∃ command script' rest', script = command :: script' ∧
        rest = (command.perform c.terminal 0 st).1 ++ rest' ∧
        Unawaited c script' (command.perform c.terminal 0 st).2 child rest') ∨
      ∃ text q rest', child.perform c.terminal c.parentPid = some (text, q) ∧
        rest = text ++ rest' ∧ Unawaited c script st q rest' := by
  constructor
  · rintro ⟨k, front, hjoined, rfl⟩
    rcases joined_iff.mp hjoined with ⟨hparent, hchild, rfl⟩ |
      ⟨text, texts, front', hparent, rfl, hrest⟩ | ⟨text, texts, front', hchild, rfl, hrest⟩
    · obtain rfl := printed_eq_nil_iff.mp hparent
      refine Or.inl ⟨rfl, ?_⟩
      rw [run_of_nil hchild]
      rfl
    · obtain ⟨command, script', rfl, rfl, rfl⟩ := printed_eq_cons_iff.mp hparent
      refine Or.inr (Or.inl ⟨command, script', _, rfl, ?_, k, front', hrest, rfl⟩)
      simp [streamBehind]
    · obtain ⟨q, j, hq, rfl, hbehind⟩ := perform_of_run hchild
      refine Or.inr (Or.inr ⟨text, q, _, hq, ?_, j, front', hrest, rfl⟩)
      simp [hbehind]
  · rintro (⟨rfl, rfl⟩ | ⟨command, script', rest', rfl, rfl, k, front, hjoined, rfl⟩ |
      ⟨text, q, rest', hq, rfl, k, front, hjoined, rfl⟩)
    · exact ⟨0, [], by simp [printed, Proc.run], by simp [streamBehind, Proc.run]⟩
    · exact ⟨k, _, hjoined.left _, by simp [streamBehind]⟩
    · refine ⟨k + 1, text ++ front, ?_, ?_⟩
      · rw [run_of_perform hq]
        exact hjoined.right text
      · rw [run_of_perform hq]
        simp

end Choices

/-- What can still appear. -/
def Remaining
    (c : Program)
    (s : State)
    (rest : List UInt8) :
    Prop :=
  match s.parent, s.wait with
  | .ended, _ => rest = (s.child.toExit c.terminal c.initPid).flatten
  | .running script st, some after => BeforeWait c script after st s.child rest
  | .running script st, none =>
      if s.reaped then rest = (s.parent.toExit c.terminal c.status).flatten
      else Unawaited c script st s.child rest

/-- When the parent has waited for the child, this has ended and is not waited for again. -/
structure Inv
    (s : State) :
    Prop where
  child_ended : s.reaped = true → s.child = .ended
  waited : s.reaped = true → s.wait = none

section Continuing

variable {c : Program} {s t : State} {rest : List UInt8}

/-- A step that passes something on, and what can appear behind it. -/
def Continues
    (c : Program)
    (s : State)
    (rest : List UInt8) :
    Prop :=
  ∃ label t text rest', next c s label = some t ∧
    t.output = s.output ++ text ∧
    rest = text ++ rest' ∧
    Remaining c t rest'

variable {script after : List Command} {st : OutStream} {wait : Option (List Command)}
variable {parent child : Proc} {reaped : Bool} {output : List UInt8}

/-- What follows from a step, label by label. -/
theorem continues_iff :
    Continues c s rest ↔
      (∃ t text rest', parentNext c s = some t ∧ t.output = s.output ++ text ∧
        rest = text ++ rest' ∧ Remaining c t rest') ∨
      ∃ text q rest', s.child.perform c.terminal (getppid c s) = some (text, q) ∧
        rest = text ++ rest' ∧
        Remaining c { s with child := q, output := s.output ++ text } rest' := by
  constructor
  · rintro ⟨label, t, text, rest', hnext, houtput, hrest, hremaining⟩
    cases label with
    | parent =>
        exact Or.inl ⟨t, text, rest', hnext, houtput, hrest, hremaining⟩
    | child =>
        simp only [next, childNext, Option.map_eq_some_iff] at hnext
        obtain ⟨⟨text', q⟩, hq, rfl⟩ := hnext
        obtain rfl := List.append_cancel_left houtput
        exact Or.inr ⟨text', q, rest', hq, hrest, hremaining⟩
  · rintro (⟨t, text, rest', hnext, houtput, hrest, hremaining⟩ |
      ⟨text, q, rest', hq, hrest, hremaining⟩)
    · exact ⟨.parent, t, text, rest', hnext, houtput, hrest, hremaining⟩
    · refine ⟨.child, _, text, rest', ?_, rfl, hrest, hremaining⟩
      simp only [next, childNext, hq, Option.map_some]

/-- The parent has ended. -/
theorem remaining_of_ended :
    Remaining c ⟨.ended, wait, child, reaped, output⟩ rest ↔
      (child = .ended ∧ rest = []) ∨
        Continues c ⟨.ended, wait, child, reaped, output⟩ rest := by
  have hparent : parentNext c ⟨.ended, wait, child, reaped, output⟩ = none := rfl
  have hinit : getppid c ⟨.ended, wait, child, reaped, output⟩ = c.initPid := rfl
  rw [continues_iff, hparent, hinit]
  simp only [Remaining]
  cases hstep : child.perform c.terminal c.initPid with
  | none =>
      simp [perform_eq_none_iff.mp hstep, Proc.toExit]
  | some r =>
      have hne : child ≠ .ended := by
        rintro rfl
        cases hstep
      simp only [toExit_of_perform hstep, List.flatten_cons, hne, false_and, false_or]
      constructor
      · rintro rfl
        exact Or.inr ⟨r.1, r.2, _, rfl, rfl, rfl⟩
      · rintro (⟨t, text, rest', hnone, -⟩ | ⟨text, q, rest', hr, rfl, rfl⟩)
        · cases hnone
        · cases hr
          rfl

/-- The parent has one successor. -/
theorem exists_parentNext_iff
    {u : State}
    {text : List UInt8}
    (hnext : parentNext c s = some u)
    (houtput : u.output = s.output ++ text) :
    (∃ t text rest', parentNext c s = some t ∧ t.output = s.output ++ text ∧
        rest = text ++ rest' ∧ Remaining c t rest') ↔
      ∃ rest', rest = text ++ rest' ∧ Remaining c u rest' := by
  constructor
  · rintro ⟨t, text', rest', ht, hout, hrest, hremaining⟩
    obtain rfl := Option.some.inj (hnext.symm.trans ht)
    obtain rfl := List.append_cancel_left (houtput.symm.trans hout)
    exact ⟨rest', hrest, hremaining⟩
  · rintro ⟨rest', hrest, hremaining⟩
    exact ⟨u, text, rest', hnext, houtput, hrest, hremaining⟩

/-- The parent is in front of its `waitpid`. -/
theorem remaining_of_wait :
    Remaining c ⟨.running script st, some after, child, false, output⟩ rest ↔
      Continues c ⟨.running script st, some after, child, false, output⟩ rest := by
  have hppid : getppid c ⟨.running script st, some after, child, false, output⟩ =
      c.parentPid := rfl
  rw [continues_iff, hppid]
  refine Iff.trans beforeWait_iff ?_
  rw [← or_assoc]
  refine or_congr ?_ Iff.rfl
  cases script with
  | nil =>
      cases child with
      | ended =>
          have hnext : parentNext c ⟨.running [] st, some after, .ended, false, output⟩ =
              some ⟨.running after st, none, .ended, true, output⟩ := rfl
          rw [exists_parentNext_iff hnext (List.append_nil _).symm]
          simp [Remaining]
      | running script' st' =>
          have hnext :
              parentNext c ⟨.running [] st, some after, .running script' st', false, output⟩ =
                none := rfl
          simp [hnext]
  | cons command script =>
      rw [exists_parentNext_iff rfl rfl]
      simp only [reduceCtorEq, false_and, false_or, List.cons.injEq]
      constructor
      · rintro ⟨_, _, rest', ⟨rfl, rfl⟩, hrest, hbefore⟩
        exact ⟨rest', hrest, hbefore⟩
      · rintro ⟨rest', hrest, hbefore⟩
        exact ⟨_, _, rest', ⟨rfl, rfl⟩, hrest, hbefore⟩

/-- The parent does not wait. -/
theorem remaining_of_unawaited :
    Remaining c ⟨.running script st, none, child, false, output⟩ rest ↔
      Continues c ⟨.running script st, none, child, false, output⟩ rest := by
  have hppid : getppid c ⟨.running script st, none, child, false, output⟩ =
      c.parentPid := rfl
  rw [continues_iff, hppid]
  refine Iff.trans unawaited_iff ?_
  rw [← or_assoc]
  refine or_congr ?_ Iff.rfl
  cases script with
  | nil =>
      have hnext : parentNext c ⟨.running [] st, none, child, false, output⟩ =
          some ⟨.ended, none, child, false, output ++ st.flush.1⟩ := rfl
      rw [exists_parentNext_iff hnext rfl]
      simp [Remaining]
  | cons command script =>
      rw [exists_parentNext_iff rfl rfl]
      simp only [reduceCtorEq, false_and, false_or, List.cons.injEq]
      constructor
      · rintro ⟨_, _, rest', ⟨rfl, rfl⟩, hrest, hbefore⟩
        exact ⟨rest', hrest, hbefore⟩
      · rintro ⟨rest', hrest, hbefore⟩
        exact ⟨_, _, rest', ⟨rfl, rfl⟩, hrest, hbefore⟩

/-- The parent has waited for the child. -/
theorem remaining_of_reaped :
    Remaining c ⟨.running script st, none, .ended, true, output⟩ rest ↔
      Continues c ⟨.running script st, none, .ended, true, output⟩ rest := by
  have hchild : ∀ ask, Proc.perform c.terminal ask .ended = none := fun _ => rfl
  simp only [continues_iff, hchild, reduceCtorEq, false_and, exists_false, or_false]
  cases script with
  | nil =>
      have hnext : parentNext c ⟨.running [] st, none, .ended, true, output⟩ =
          some ⟨.ended, none, .ended, true, output ++ st.flush.1⟩ := rfl
      rw [exists_parentNext_iff hnext rfl]
      simp [Remaining, Proc.toExit, printed, streamBehind]
  | cons command script =>
      rw [exists_parentNext_iff rfl rfl]
      simp [Remaining, Proc.toExit, printed, streamBehind, asked]

/-- What can appear, one step at a time. -/
theorem remaining_iff
    (h : Inv s) :
    Remaining c s rest ↔ (s.Finished ∧ rest = []) ∨ Continues c s rest := by
  obtain ⟨parent, wait, child, reaped, output⟩ := s
  obtain ⟨hended, hwaited⟩ := h
  cases parent with
  | ended =>
      simpa [State.Finished] using remaining_of_ended
  | running script st =>
      simp only [State.Finished, reduceCtorEq, false_and, false_or]
      cases reaped with
      | true =>
          obtain rfl : child = .ended := hended rfl
          obtain rfl : wait = none := hwaited rfl
          exact remaining_of_reaped
      | false =>
          cases wait with
          | none =>
              exact remaining_of_unawaited
          | some after =>
              exact remaining_of_wait

end Continuing

section Outputs

variable {c : Program} {forked : Bool} {s t : State} {label : Label} {rest : List UInt8}

theorem inv_start :
    Inv (start c forked) where
  child_ended h := nomatch h
  waited h := nomatch h

/-- The parent returns from `waitpid`, or it takes a step of its own. -/
theorem parentNext_eq_some
    (h : parentNext c s = some t) :
    (∃ script st after, s.parent = .running script st ∧ s.wait = some after ∧
      s.child = .ended ∧ script = [] ∧
      t = { s with parent := .running after st, wait := none, reaped := true }) ∨
    ∃ text q, s.parent.perform c.terminal (asked c s) = some (text, q) ∧
      t = { s with parent := q, output := s.output ++ text } := by
  unfold parentNext at h
  split at h
  · next st after hparent hwait =>
      unfold waited at h
      split_ifs at h with hended
      cases h
      refine Or.inl ⟨[], st, after, hparent, hwait, ?_, rfl, rfl⟩
      cases hchild : s.child with
      | ended =>
          rfl
      | running script' st' =>
          rw [hchild] at hended
          cases hended
  · obtain ⟨⟨text, q⟩, hq, rfl⟩ := Option.map_eq_some_iff.mp h
    exact Or.inr ⟨text, q, hq, rfl⟩

theorem Inv.step
    (h : Inv s)
    (hstep : next c s label = some t) :
    Inv t := by
  cases label with
  | child =>
      simp only [next, childNext, Option.map_eq_some_iff] at hstep
      obtain ⟨r, hr, rfl⟩ := hstep
      refine ⟨fun hreaped => ?_, h.waited⟩
      rw [h.child_ended hreaped] at hr
      cases hr
  | parent =>
      rcases parentNext_eq_some hstep with ⟨_, _, _, _, _, hchild, _, rfl⟩ | ⟨_, _, _, rfl⟩
      · exact ⟨fun _ => hchild, fun _ => rfl⟩
      · exact ⟨h.child_ended, h.waited⟩

/-- The steps that are left: the commands and the end. -/
def Proc.left : Proc → Nat
  | running script _ => script.length + 1
  | ended => 0

theorem left_of_perform
    {terminal : Bool}
    {ask : Nat}
    {p q : Proc}
    {text : List UInt8}
    (h : p.perform terminal ask = some (text, q)) :
    q.left + 1 = p.left := by
  cases p with
  | ended =>
      cases h
  | running script st =>
      cases script <;> cases h <;> rfl

/-- The parent may have the commands behind its `waitpid` in front of it. -/
def stepsLeft
    (s : State) :
    Nat :=
  s.parent.left + s.child.left + (s.wait.map fun after => after.length + 1).getD 0

theorem stepsLeft_lt
    (hstep : next c s label = some t) :
    stepsLeft t < stepsLeft s := by
  cases label with
  | child =>
      simp only [next, childNext, Option.map_eq_some_iff] at hstep
      obtain ⟨r, hr, rfl⟩ := hstep
      have hleft := left_of_perform hr
      simp only [stepsLeft]
      omega
  | parent =>
      rcases parentNext_eq_some hstep with ⟨script, st, after, hparent, hwait, -, -, rfl⟩ |
        ⟨text, q, hq, rfl⟩
      · simp only [stepsLeft, hparent, hwait, Proc.left, Option.map_some, Option.map_none,
          Option.getD_some, Option.getD_none]
        omega
      · have hleft := left_of_perform hq
        simp only [stepsLeft]
        omega

theorem inv_of_reachable
    (h : (system c forked).Reachable s) :
    Inv s := by
  refine h.invariant ?_ ?_
  · rintro _ rfl
    exact inv_start
  · rintro s label t hs ⟨-, hstep⟩
    exact hs.step hstep

theorem remaining_of_runs
    (h : Inv s)
    (hruns : (system c forked).Runs s t)
    (hfinished : t.Finished) :
    ∃ rest, t.output = s.output ++ rest ∧ Remaining c s rest := by
  induction hruns using Relation.ReflTransGen.head_induction_on with
  | refl =>
      exact ⟨[], (List.append_nil _).symm, (remaining_iff h).mpr (Or.inl ⟨hfinished, rfl⟩)⟩
  | @head s u hstep _ ih =>
      obtain ⟨label, -, hnext⟩ := hstep
      obtain ⟨rest, hrest, hremaining⟩ := ih (h.step hnext)
      have houtput : ∃ text, u.output = s.output ++ text := by
        cases label with
        | child =>
            simp only [next, childNext, Option.map_eq_some_iff] at hnext
            obtain ⟨r, -, rfl⟩ := hnext
            exact ⟨r.1, rfl⟩
        | parent =>
            rcases parentNext_eq_some hnext with ⟨_, _, _, _, _, _, _, rfl⟩ |
              ⟨text, _, _, rfl⟩
            · exact ⟨[], (List.append_nil _).symm⟩
            · exact ⟨text, rfl⟩
      obtain ⟨text, htext⟩ := houtput
      refine ⟨text ++ rest, by rw [hrest, htext, List.append_assoc], ?_⟩
      exact (remaining_iff h).mpr (Or.inr ⟨label, u, text, rest, hnext, htext, rfl, hremaining⟩)

theorem exists_runs_of_remaining
    (h : Inv s)
    (hremaining : Remaining c s rest) :
    ∃ t, (system c forked).Runs s t ∧ t.Finished ∧ t.output = s.output ++ rest := by
  induction hn : stepsLeft s using Nat.strongRecOn generalizing s rest with
  | ind n ih =>
      rcases (remaining_iff h).mp hremaining with ⟨hfinished, rfl⟩ |
        ⟨label, u, text, rest', hnext, houtput, rfl, hlater⟩
      · exact ⟨s, TransitionSystem.Runs.refl, hfinished, (List.append_nil _).symm⟩
      · obtain ⟨t, hruns, hfinished, ht⟩ :=
          ih (stepsLeft u) (hn ▸ stepsLeft_lt hnext) (h.step hnext) hlater rfl
        refine ⟨t, TransitionSystem.Runs.head ⟨trivial, hnext⟩ hruns, hfinished, ?_⟩
        rw [ht, houtput, List.append_assoc]

/-- The outputs with which the two processes can end. -/
theorem exists_finished_iff
    {output : List UInt8} :
    (∃ t, (system c forked).Reachable t ∧ t.Finished ∧ t.output = output) ↔
      Remaining c (start c forked) output := by
  constructor
  · rintro ⟨t, ht, hfinished, rfl⟩
    obtain ⟨s, rfl, hruns⟩ := ht.exists_runs
    obtain ⟨rest, hrest, hremaining⟩ := remaining_of_runs inv_start hruns hfinished
    rw [hrest]
    exact hremaining
  · intro hremaining
    have hexists : ∃ t, (system c forked).Runs (start c forked) t ∧ t.Finished ∧
        t.output = (start c forked).output ++ output :=
      exists_runs_of_remaining inv_start hremaining
    obtain ⟨t, hruns, hfinished, houtput⟩ := hexists
    exact ⟨t, (TransitionSystem.Reachable.init rfl).runs hruns, hfinished, houtput⟩

end Outputs

end ForkedOutput

end Foundation
end OsSeminars
