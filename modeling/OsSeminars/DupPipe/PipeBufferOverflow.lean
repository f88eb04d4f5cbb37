import OsSeminars.Foundation.Pipe
import OsSeminars.Foundation.TransitionSystem
import Mathlib.Algebra.Ring.Nat

/-!
# `pipe-buffer-overflow.c`: a writer without a reader

The child writes a message into the pipe again and again, and the parent, which keeps
its read end open, never reads. So the pipe fills up, and the child stops in the first
write for which there is no room.

The message is shorter than `PIPE_BUF`, so a write transfers all of it or none, and the
capacity `C` is what the pipe takes up from such writes. A label says which process
moves, or which one a signal ends from outside; a write without a reader raises
`SIGPIPE`, which ends the child. Neither endless loop has an exit, so what stands behind
them in the source is no point of the program.
-/

namespace OsSeminars
namespace DupPipe
namespace PipeBufferOverflow

open Foundation

/-- `mymessage` as `strlen` sees it. -/
def mymessage : List UInt8 :=
  ['h', 'e', 'l', 'l', 'o', ' ', 'w', 'o', 'r', 'l', 'd', '\n'].map Char.toUInt8

/-- The child branch; `loop` is the condition of `if`. -/
inductive ChildPc
  | closeRead
  | printSending
  | loop
  | printStill
  | write
  | addSize
  | terminated
  deriving DecidableEq

/-- The parent branch. -/
inductive ParentPc
  | closeWrite
  | printNothing
  | schedYield
  | terminated
  deriving DecidableEq

structure State (C : Nat) where
  pipe : Pipe UInt8 C
  child : ChildPc
  childEnds : PipeEnds
  parent : ParentPc
  parentEnds : PipeEnds
  /-- `counter` and `buff_size` are of type `uint64_t` -/
  counter : Nat
  buffSize : Nat
  /-- the texts that the child and the parent have passed to `printf` -/
  childSaid : List String
  parentSaid : List String

inductive Label
  | child
  | parent
  | killChild
  | killParent
  deriving DecidableEq

/-- The state after a successful `fork`. -/
def afterFork
    (C : Nat) :
    State C where
  pipe := .fresh 2
  child := .closeRead
  childEnds _ := true
  parent := .closeWrite
  parentEnds _ := true
  counter := 0
  buffSize := 0
  childSaid := []
  parentSaid := []

def sendingMessage : String :=
  "child: sending message\n"

def stillWriting
    (buffSize : Nat) :
    String :=
  "child: still writing, buf_size=" ++ toString buffSize ++ "\n"

section Steps

variable {C : Nat} (s : State C)

/-- A signal ends the child, and its descriptors are closed. -/
def terminateChild :
    State C :=
  let r := s.pipe.closeAll s.childEnds
  { s with pipe := r.1, childEnds := r.2, child := .terminated }

def terminateParent :
    State C :=
  let r := s.pipe.closeAll s.parentEnds
  { s with pipe := r.1, parentEnds := r.2, parent := .terminated }

/-- `write(pipefd[WRITE], mymessage, strlen(mymessage))`, whose result is ignored. -/
def childWrite :
    Option (State C) :=
  if s.childEnds .write = false then
    some { s with child := .addSize }
  else if s.pipe.openEnds .read = 0 then
    some (terminateChild s)
  else
    match s.pipe.accept mymessage with
    | none => none
    | some p => some { s with pipe := p, child := .addSize }

def childNext :
    Option (State C) :=
  match s.child with
  | .closeRead =>
      let r := s.pipe.close s.childEnds .read
      some { s with pipe := r.1, childEnds := r.2, child := .printSending }
  | .printSending =>
      some { s with childSaid := s.childSaid ++ [sendingMessage], child := .loop }
  | .loop =>
      let counter := (s.counter + 1) % 2 ^ 64
      some { s with
        counter := counter
        child := if counter % 100 = 0 then .printStill else .write }
  | .printStill =>
      some { s with childSaid := s.childSaid ++ [stillWriting s.buffSize], child := .write }
  | .write => childWrite s
  | .addSize =>
      some { s with buffSize := (s.buffSize + mymessage.length) % 2 ^ 64, child := .loop }
  | .terminated => none

def parentNext :
    Option (State C) :=
  match s.parent with
  | .closeWrite =>
      let r := s.pipe.close s.parentEnds .write
      some { s with pipe := r.1, parentEnds := r.2, parent := .printNothing }
  | .printNothing =>
      some { s with
        parentSaid := s.parentSaid ++ ["parent: not doing anything\n"]
        parent := .schedYield }
  | .schedYield => some s
  | .terminated => none

def next :
    Label → Option (State C)
  | .child => childNext s
  | .parent => parentNext s
  | .killChild => if s.child = .terminated then none else some (terminateChild s)
  | .killParent => if s.parent = .terminated then none else some (terminateParent s)

end Steps

/-- No signal comes from outside. -/
def Quiet : Label → Prop
  | .child => True
  | .parent => True
  | .killChild => False
  | .killParent => False

def system
    (C : Nat) :
    TransitionSystem (State C) Label :=
  .ofProgram (fun s => s = afterFork C) (fun _ _ => True) next

/-- The two processes left to themselves. -/
def quietSystem
    (C : Nat) :
    TransitionSystem (State C) Label :=
  .ofProgram (fun s => s = afterFork C) (fun _ label => Quiet label) next

/-- The child waits in a system call. -/
def Blocked
    {C : Nat}
    (s : State C) :
    Prop :=
  s.child ≠ .terminated ∧ ¬ (system C).Enabled s .child

/-- The texts of the child when it has begun its loop `rounds` times. -/
def texts
    (rounds : Nat) :
    List String :=
  sendingMessage ::
    (List.range (rounds / 100)).map
      fun i => stillWriting (mymessage.length * (100 * i + 99))

def childHolds : ChildPc → PipeEnds
  | .closeRead => fun _ => true
  | .terminated => fun _ => false
  | _ => fun e => decide (e = .write)

def parentHolds : ParentPc → PipeEnds
  | .closeWrite => fun _ => true
  | .terminated => fun _ => false
  | _ => fun e => decide (e = .read)

/-- The child has told of its rounds when `sent` messages are in the pipe, and of the round
of the next message or not yet. -/
def Told
    (sent : Nat)
    (said : List String) :
    Prop :=
  (sent = 0 ∧ said = []) ∨
  ∃ rounds, sent ≤ rounds ∧ rounds ≤ sent + 1 ∧ said = texts rounds

/-- The variables and the texts of the child when `sent` messages are in the pipe. -/
def Counted
    (sent counter buffSize : Nat)
    (said : List String) :
    ChildPc → Prop
  | .closeRead => sent = 0 ∧ counter = 0 ∧ buffSize = 0 ∧ said = []
  | .printSending => sent = 0 ∧ counter = 0 ∧ buffSize = 0 ∧ said = []
  | .loop =>
      counter = sent ∧ buffSize = mymessage.length * sent ∧ said = texts sent
  | .printStill =>
      (sent + 1) % 100 = 0 ∧
        counter = sent + 1 ∧ buffSize = mymessage.length * sent ∧ said = texts sent
  | .write =>
      counter = sent + 1 ∧ buffSize = mymessage.length * sent ∧ said = texts (sent + 1)
  | .addSize =>
      counter = sent ∧ buffSize + mymessage.length = mymessage.length * sent ∧
        said = texts sent
  | .terminated => Told sent said

/-- The bytes of a number of messages. -/
def messages
    (sent : Nat) :
    List UInt8 :=
  (List.replicate sent mymessage).flatten

structure Inv
    {C : Nat}
    (sent : Nat)
    (s : State C) :
    Prop where
  child_ends : s.childEnds = childHolds s.child
  parent_ends : s.parentEnds = parentHolds s.parent
  counts : s.pipe.openEnds = Pipe.endsOf s.childEnds s.parentEnds
  buffered : s.pipe.buffered = messages sent
  counted : Counted sent s.counter s.buffSize s.childSaid s.child

section Texts

theorem length_messages
    (sent : Nat) :
    (messages sent).length = mymessage.length * sent := by
  rw [messages, List.length_flatten, List.map_replicate, List.sum_replicate_nat,
    Nat.mul_comm]

theorem messages_succ
    (sent : Nat) :
    messages (sent + 1) = messages sent ++ mymessage := by
  rw [messages, List.replicate_succ', List.flatten_append, List.flatten_singleton]
  rfl

theorem texts_zero :
    texts 0 = [sendingMessage] :=
  rfl

/-- Every hundredth round has a text of its own. -/
theorem texts_hundredth
    {sent : Nat}
    (h : (sent + 1) % 100 = 0) :
    texts (sent + 1) = texts sent ++ [stillWriting (mymessage.length * sent)] := by
  have hquot : (sent + 1) / 100 = sent / 100 + 1 := by
    omega
  have hsent : 100 * (sent / 100) + 99 = sent := by
    omega
  rw [texts, hquot, List.range_succ, List.map_append, List.map_singleton, hsent]
  rfl

theorem texts_other
    {sent : Nat}
    (h : (sent + 1) % 100 ≠ 0) :
    texts (sent + 1) = texts sent := by
  have hquot : (sent + 1) / 100 = sent / 100 := by
    omega
  rw [texts, hquot, texts]

/-- What the child has said at any point, also when a signal ends it. -/
theorem Counted.terminated
    {sent counter buffSize : Nat}
    {said : List String}
    {pc : ChildPc}
    (h : Counted sent counter buffSize said pc) :
    Counted sent counter buffSize said .terminated := by
  cases pc with
  | closeRead =>
      exact Or.inl ⟨h.1, h.2.2.2⟩
  | printSending =>
      exact Or.inl ⟨h.1, h.2.2.2⟩
  | loop =>
      exact Or.inr ⟨sent, Nat.le_refl sent, Nat.le_succ sent, h.2.2⟩
  | printStill =>
      exact Or.inr ⟨sent, Nat.le_refl sent, Nat.le_succ sent, h.2.2.2⟩
  | write =>
      exact Or.inr ⟨sent + 1, Nat.le_succ sent, Nat.le_refl _, h.2.2⟩
  | addSize =>
      exact Or.inr ⟨sent, Nat.le_refl sent, Nat.le_succ sent, h.2.2⟩
  | terminated =>
      exact h

end Texts

section Preservation

variable {C : Nat} {sent : Nat} {s t : State C}

theorem inv_afterFork
    (C : Nat) :
    Inv 0 (afterFork C) where
  child_ends := rfl
  parent_ends := rfl
  counts := by
    funext e
    cases e <;> rfl
  buffered := rfl
  counted := ⟨rfl, rfl, rfl, rfl⟩

/-- The pipe holds no more messages than there is room for. -/
theorem Inv.sent_le
    (h : Inv sent s) :
    mymessage.length * sent ≤ C := by
  have hfits := s.pipe.fits
  rwa [h.buffered, length_messages] at hfits

/-- A signal ends the child. -/
theorem Inv.terminateChild
    (h : Inv sent s) :
    Inv sent (terminateChild s) where
  child_ends := Pipe.closeAll_ends ..
  parent_ends := h.parent_ends
  counts := Pipe.closeAll_openEnds_left h.counts
  buffered := (Pipe.closeAll_buffered ..).trans h.buffered
  counted := h.counted.terminated

theorem Inv.terminateParent
    (h : Inv sent s) :
    Inv sent (terminateParent s) where
  child_ends := h.child_ends
  parent_ends := Pipe.closeAll_ends ..
  counts := Pipe.closeAll_openEnds_right h.counts
  buffered := (Pipe.closeAll_buffered ..).trans h.buffered
  counted := h.counted

/-- The child leaves the pipe alone. -/
theorem Inv.childMoves
    (h : Inv sent s)
    {pc : ChildPc}
    {counter buffSize : Nat}
    {said : List String}
    (hends : childHolds s.child = childHolds pc)
    (hcounted : Counted sent counter buffSize said pc) :
    Inv sent
      { s with child := pc, counter := counter, buffSize := buffSize, childSaid := said } where
  child_ends := h.child_ends.trans hends
  parent_ends := h.parent_ends
  counts := h.counts
  buffered := h.buffered
  counted := hcounted

/-- The parent leaves the data in the pipe alone. -/
theorem Inv.parentMoves
    (h : Inv sent s)
    {p : Pipe UInt8 C}
    {ends : PipeEnds}
    {pc : ParentPc}
    {said : List String}
    (hends : ends = parentHolds pc)
    (hcounts : p.openEnds = Pipe.endsOf s.childEnds ends)
    (hbuffered : p.buffered = s.pipe.buffered) :
    Inv sent { s with pipe := p, parentEnds := ends, parent := pc, parentSaid := said } where
  child_ends := h.child_ends
  parent_ends := hends
  counts := hcounts
  buffered := hbuffered.trans h.buffered
  counted := h.counted

/-- While both processes live, the child can write and the pipe has a reader. -/
theorem Inv.open_in_write
    (h : Inv sent s)
    (hchild : s.child = .write)
    (hparent : s.parent ≠ .terminated) :
    s.childEnds .write = true ∧ s.pipe.openEnds .read ≠ 0 := by
  have hreads : s.parentEnds .read = true := by
    rw [h.parent_ends]
    cases hpc : s.parent with
    | terminated =>
        exact absurd hpc hparent
    | _ => rfl
  constructor
  · rw [h.child_ends, hchild]
    rfl
  · rw [h.counts, Pipe.endsOf, hreads]
    exact Nat.succ_ne_zero _

theorem inv_childWrite
    (h : Inv sent s)
    (hpc : s.child = .write)
    (hnext : childWrite s = some t) :
    ∃ sent', Inv sent' t := by
  have hcounted := h.counted
  rw [hpc] at hcounted
  obtain ⟨hcounter, hsize, hsaid⟩ := hcounted
  have hwrite : s.childEnds .write = true := by
    rw [h.child_ends, hpc]
    rfl
  rw [childWrite, if_neg (by rw [hwrite]; exact Bool.noConfusion)] at hnext
  split_ifs at hnext with hreaders
  · cases hnext
    exact ⟨sent, h.terminateChild⟩
  · cases haccept : s.pipe.accept mymessage with
    | none =>
        rw [haccept] at hnext
        cases hnext
    | some p =>
        rw [haccept] at hnext
        cases hnext
        obtain ⟨hbuffered, hopen⟩ := Pipe.accept_eq_some haccept
        refine ⟨sent + 1,
          { child_ends := ?_
            parent_ends := h.parent_ends
            counts := hopen.trans h.counts
            buffered := ?_
            counted := ⟨hcounter, ?_, hsaid⟩ }⟩
        · rw [h.child_ends, hpc]
          rfl
        · rw [hbuffered, h.buffered, messages_succ]
        · rw [hsize, Nat.mul_succ]

/-- The numbers stay far below the bound of `uint64_t`. -/
theorem Inv.mod_eq
    (h : Inv sent s)
    (hC : C < 2 ^ 64) :
    (sent + 1) % 2 ^ 64 = sent + 1 ∧
      mymessage.length * sent % 2 ^ 64 = mymessage.length * sent := by
  have hle : 12 * sent ≤ C := h.sent_le
  constructor
  · exact Nat.mod_eq_of_lt (by omega)
  · exact Nat.mod_eq_of_lt (Nat.lt_of_le_of_lt hle hC)

theorem inv_childNext
    (hC : C < 2 ^ 64)
    (h : Inv sent s)
    (hnext : childNext s = some t) :
    ∃ sent', Inv sent' t := by
  have hcounted := h.counted
  obtain ⟨hcounterMod, hsizeMod⟩ := h.mod_eq hC
  cases hpc : s.child with
  | closeRead =>
      simp only [childNext, hpc, Option.some.injEq] at hnext
      subst hnext
      rw [hpc] at hcounted
      refine ⟨sent,
        { child_ends := ?_
          parent_ends := h.parent_ends
          counts := Pipe.close_openEnds_left h.counts .read
          buffered := (Pipe.close_buffered ..).trans h.buffered
          counted := hcounted }⟩
      rw [Pipe.close_ends, h.child_ends, hpc]
      funext e
      cases e <;> rfl
  | printSending =>
      simp only [childNext, hpc, Option.some.injEq] at hnext
      subst hnext
      rw [hpc] at hcounted
      obtain ⟨hsent, hcounter, hsize, hsaid⟩ := hcounted
      refine ⟨sent, h.childMoves (by rw [hpc]; rfl) ⟨?_, ?_, ?_⟩⟩
      · rw [hcounter, hsent]
      · rw [hsize, hsent]
        rfl
      · rw [hsaid, hsent, texts_zero]
        rfl
  | loop =>
      simp only [childNext, hpc, Option.some.injEq] at hnext
      subst hnext
      rw [hpc] at hcounted
      obtain ⟨hcounter, hsize, hsaid⟩ := hcounted
      rw [hcounter, hcounterMod]
      by_cases hhundredth : (sent + 1) % 100 = 0
      · rw [if_pos hhundredth]
        exact ⟨sent, h.childMoves (by rw [hpc]; rfl) ⟨hhundredth, rfl, hsize, hsaid⟩⟩
      · rw [if_neg hhundredth]
        exact ⟨sent, h.childMoves (by rw [hpc]; rfl)
          ⟨rfl, hsize, hsaid.trans (texts_other hhundredth).symm⟩⟩
  | printStill =>
      simp only [childNext, hpc, Option.some.injEq] at hnext
      subst hnext
      rw [hpc] at hcounted
      obtain ⟨hhundredth, hcounter, hsize, hsaid⟩ := hcounted
      refine ⟨sent, h.childMoves (by rw [hpc]; rfl) ⟨hcounter, hsize, ?_⟩⟩
      rw [hsaid, hsize, texts_hundredth hhundredth]
  | write =>
      simp only [childNext, hpc] at hnext
      exact inv_childWrite h hpc hnext
  | addSize =>
      simp only [childNext, hpc, Option.some.injEq] at hnext
      subst hnext
      rw [hpc] at hcounted
      obtain ⟨hcounter, hsize, hsaid⟩ := hcounted
      rw [hsize, hsizeMod]
      exact ⟨sent, h.childMoves (by rw [hpc]; rfl) ⟨hcounter, rfl, hsaid⟩⟩
  | terminated =>
      simp [childNext, hpc] at hnext

theorem inv_parentNext
    (h : Inv sent s)
    (hnext : parentNext s = some t) :
    Inv sent t := by
  cases hpc : s.parent with
  | closeWrite =>
      simp only [parentNext, hpc, Option.some.injEq] at hnext
      subst hnext
      refine h.parentMoves ?_ (Pipe.close_openEnds_right h.counts .write)
        (Pipe.close_buffered ..)
      rw [Pipe.close_ends, h.parent_ends, hpc]
      funext e
      cases e <;> rfl
  | printNothing =>
      simp only [parentNext, hpc, Option.some.injEq] at hnext
      subst hnext
      exact h.parentMoves (by rw [h.parent_ends, hpc]; rfl) h.counts rfl
  | schedYield =>
      simp only [parentNext, hpc, Option.some.injEq] at hnext
      subst hnext
      exact h
  | terminated =>
      simp [parentNext, hpc] at hnext

theorem inv_of_reachable
    (hC : C < 2 ^ 64)
    (h : (system C).Reachable s) :
    ∃ sent, Inv sent s := by
  refine h.invariant (I := fun s : State C => ∃ sent, Inv sent s) ?_ ?_
  · rintro s rfl
    exact ⟨0, inv_afterFork C⟩
  · rintro s a t ⟨sent, hinv⟩ ⟨-, hnext⟩
    cases a with
    | child =>
        exact inv_childNext hC hinv hnext
    | parent =>
        exact ⟨sent, inv_parentNext hinv hnext⟩
    | killChild =>
        simp only [next] at hnext
        split_ifs at hnext
        cases hnext
        exact ⟨sent, hinv.terminateChild⟩
    | killParent =>
        simp only [next] at hnext
        split_ifs at hnext
        cases hnext
        exact ⟨sent, hinv.terminateParent⟩

end Preservation

section Blocking

variable {C : Nat} {sent : Nat} {s t : State C}

/-- No signal has ended one of the processes. -/
structure Alive
    (s : State C) :
    Prop where
  child : s.child ≠ .terminated
  parent : s.parent ≠ .terminated

/-- The child waits in its write, and only there, when there is no room for a message. -/
theorem Inv.blocked_iff
    (h : Inv sent s)
    (halive : Alive s) :
    Blocked s ↔ s.child = .write ∧ sent = C / mymessage.length := by
  have hlength : mymessage.length = 12 := rfl
  have hle : 12 * sent ≤ C := h.sent_le
  rw [Blocked, system, TransitionSystem.enabled_ofProgram_iff]
  simp only [halive.child, ne_eq, not_false_eq_true, true_and, next]
  cases hpc : s.child with
  | write =>
      obtain ⟨hwrite, hreaders⟩ := h.open_in_write hpc halive.parent
      have hroom : (childNext s).isSome ↔ s.pipe.buffered.length + mymessage.length ≤ C := by
        rw [← Pipe.accept_isSome_iff]
        simp only [childNext, hpc, childWrite, hwrite, hreaders, Bool.true_eq_false, if_false]
        cases s.pipe.accept mymessage <;> rfl
      rw [hroom, h.buffered, length_messages, hlength]
      simp only [true_and]
      omega
  | terminated =>
      exact absurd hpc halive.child
  | _ => simp [childNext, hpc]

/-- While the pipe has a reader, the child does not end by itself. -/
theorem childNext_alive
    (h : Inv sent s)
    (halive : Alive s)
    (hnext : childNext s = some t) :
    Alive t := by
  cases hpc : s.child with
  | loop =>
      simp only [childNext, hpc, Option.some.injEq] at hnext
      subst hnext
      refine ⟨?_, halive.parent⟩
      dsimp only
      split_ifs <;> simp
  | write =>
      obtain ⟨hwrite, hreaders⟩ := h.open_in_write hpc halive.parent
      simp only [childNext, hpc, childWrite, hwrite, hreaders, Bool.true_eq_false,
        if_false] at hnext
      cases haccept : s.pipe.accept mymessage <;> rw [haccept] at hnext <;> cases hnext
      exact ⟨by simp, halive.parent⟩
  | terminated =>
      exact absurd hpc halive.child
  | _ =>
      simp only [childNext, hpc, Option.some.injEq] at hnext
      subst hnext
      exact ⟨by simp, halive.parent⟩

theorem parentNext_alive
    (halive : Alive s)
    (hnext : parentNext s = some t) :
    Alive t := by
  cases hpc : s.parent with
  | schedYield =>
      simp only [parentNext, hpc, Option.some.injEq] at hnext
      subst hnext
      exact halive
  | terminated =>
      exact absurd hpc halive.parent
  | _ =>
      simp only [parentNext, hpc, Option.some.injEq] at hnext
      subst hnext
      exact ⟨halive.child, by simp⟩

/-- The parent changes nothing that the child sees. -/
theorem parentNext_child
    (hnext : parentNext s = some t) :
    t.child = s.child ∧ t.pipe.buffered = s.pipe.buffered ∧ t.childSaid = s.childSaid := by
  cases hpc : s.parent with
  | terminated =>
      simp [parentNext, hpc] at hnext
  | _ =>
      simp only [parentNext, hpc, Option.some.injEq] at hnext
      subst hnext
      simp

/-- A living parent goes on forever. -/
theorem Alive.parent_enabled
    (halive : Alive s) :
    (quietSystem C).Enabled s .parent := by
  rw [quietSystem, TransitionSystem.enabled_ofProgram_iff]
  refine ⟨trivial, ?_⟩
  cases hpc : s.parent with
  | terminated =>
      exact absurd hpc halive.parent
  | _ => simp [next, parentNext, hpc]

/-- Points of the child on its way to the next write. -/
def untilWrite : ChildPc → Nat
  | .closeRead => 5
  | .printSending => 4
  | .addSize => 4
  | .loop => 3
  | .printStill => 2
  | .write => 1
  | .terminated => 0

/-- Every step of the child leads closer to the full pipe. -/
def untilFull
    (s : State C) : Nat :=
  5 * (C - s.pipe.buffered.length) + untilWrite s.child

theorem childNext_untilFull
    (h : Inv sent s)
    (halive : Alive s)
    (hnext : childNext s = some t) :
    untilFull t < untilFull s := by
  cases hpc : s.child with
  | loop =>
      simp only [childNext, hpc, Option.some.injEq] at hnext
      subst hnext
      simp only [untilFull, hpc]
      split_ifs <;> simp [untilWrite]
  | write =>
      obtain ⟨hwrite, hreaders⟩ := h.open_in_write hpc halive.parent
      simp only [childNext, hpc, childWrite, hwrite, hreaders, Bool.true_eq_false,
        if_false] at hnext
      cases haccept : s.pipe.accept mymessage with
      | none =>
          rw [haccept] at hnext
          cases hnext
      | some p =>
          rw [haccept] at hnext
          cases hnext
          have hlength : mymessage.length = 12 := rfl
          have hgrown : p.buffered.length = s.pipe.buffered.length + mymessage.length := by
            rw [(Pipe.accept_eq_some haccept).1, List.length_append]
          have hfits := p.fits
          simp only [untilFull, untilWrite, hpc]
          omega
  | terminated =>
      exact absurd hpc halive.child
  | _ =>
      simp only [childNext, hpc, Option.some.injEq] at hnext
      subst hnext
      simp [untilFull, untilWrite, hpc]

/-- The invariant while no signal comes from outside. -/
def Running
    (s : State C) :
    Prop :=
  (∃ sent, Inv sent s) ∧ Alive s

theorem Running.step
    (hC : C < 2 ^ 64)
    {label : Label}
    (h : Running s)
    (hstep : (quietSystem C).step s label t) :
    Running t := by
  obtain ⟨⟨sent, hinv⟩, halive⟩ := h
  obtain ⟨hquiet, hnext⟩ := hstep
  cases label with
  | child =>
      exact ⟨inv_childNext hC hinv hnext, childNext_alive hinv halive hnext⟩
  | parent =>
      exact ⟨⟨sent, inv_parentNext hinv hnext⟩, parentNext_alive halive hnext⟩
  | killChild =>
      exact hquiet.elim
  | killParent =>
      exact hquiet.elim

/-- The pipe is full and the child waits in a further write. -/
structure Overflown
    (s : State C) :
    Prop where
  blocked : Blocked s
  child : s.child = .write
  buffered : s.pipe.buffered = messages (C / mymessage.length)
  said : s.childSaid = texts (C / mymessage.length + 1)

theorem Running.overflown
    (h : Running s)
    (hblocked : Blocked s) :
    Overflown s := by
  obtain ⟨⟨sent, hinv⟩, halive⟩ := h
  obtain ⟨hchild, rfl⟩ := (hinv.blocked_iff halive).mp hblocked
  have hcounted := hinv.counted
  rw [hchild] at hcounted
  exact
    { blocked := hblocked
      child := hchild
      buffered := hinv.buffered
      said := hcounted.2.2 }

theorem Running.exists_overflown
    (hC : C < 2 ^ 64)
    (h : Running s) :
    ∃ t, (quietSystem C).Runs s t ∧ Running t ∧ Overflown t := by
  refine TransitionSystem.exists_runs_of_measure untilFull ?_ h
  intro u hu
  by_cases hblocked : Blocked u
  · exact Or.inl (hu.overflown hblocked)
  · have henabled : (system C).Enabled u .child := by
      by_contra hdisabled
      exact hblocked ⟨hu.2.child, hdisabled⟩
    obtain ⟨t, -, hnext⟩ := henabled
    have hstep : (quietSystem C).step u .child t := ⟨trivial, hnext⟩
    obtain ⟨sent, hinv⟩ := hu.1
    exact Or.inr ⟨.child, t, hstep, hu.step hC hstep,
      childNext_untilFull hinv hu.2 hnext⟩

/-- Once the child waits, it waits as long as no signal comes. -/
theorem Overflown.runs
    (hC : C < 2 ^ 64)
    (hs : Running s)
    (h : Overflown s)
    (hrun : (quietSystem C).Runs s t) :
    Running t ∧ Overflown t := by
  induction hrun with
  | refl =>
      exact ⟨hs, h⟩
  | @tail u v _ hstep ih =>
      obtain ⟨label, hstep⟩ := hstep
      obtain ⟨hu, hover⟩ := ih
      have hv := hu.step hC hstep
      refine ⟨hv, ?_⟩
      cases label with
      | child =>
          exact absurd ⟨v, trivial, hstep.2⟩ hover.blocked.2
      | parent =>
          obtain ⟨hchild, hbuffered, hsaid⟩ := parentNext_child hstep.2
          obtain ⟨⟨sent, hinv⟩, halive⟩ := hv
          refine Running.overflown ⟨⟨sent, hinv⟩, halive⟩
            ((hinv.blocked_iff halive).mpr ⟨hchild.trans hover.child, ?_⟩)
          have hlength := congrArg List.length (hbuffered.trans hover.buffered)
          rw [hinv.buffered, length_messages, length_messages] at hlength
          exact Nat.eq_of_mul_eq_mul_left (by decide) hlength
      | killChild =>
          exact hstep.1.elim
      | killParent =>
          exact hstep.1.elim

end Blocking

section Main

/-- Only whole messages are in the pipe, at most as many as there is room for, and the
child has told of every hundredth. As long as no signal ends a process, a run leads from
every reachable state to the one in which the pipe is full, and from then on the child
waits in its write while the parent goes on forever. -/
theorem fills_and_blocks
    (C : Nat)
    (hC : C < 2 ^ 64)
    (s : State C)
    (h : (system C).Reachable s) :
    (∃ sent, sent ≤ C / mymessage.length ∧ s.pipe.buffered = messages sent ∧
      Told sent s.childSaid) ∧
    (Alive s →
      (Blocked s ↔
        s.child = .write ∧ s.pipe.buffered = messages (C / mymessage.length)) ∧
      ∃ t, (quietSystem C).Runs s t ∧ Overflown t ∧
        ∀ u, (quietSystem C).Runs t u →
          Overflown u ∧ (quietSystem C).Enabled u .parent) := by
  obtain ⟨sent, hinv⟩ := inv_of_reachable hC h
  refine ⟨⟨sent, ?_, hinv.buffered, hinv.counted.terminated⟩, fun halive => ⟨⟨?_, ?_⟩, ?_⟩⟩
  · exact (Nat.le_div_iff_mul_le (by decide)).mpr (by rw [Nat.mul_comm]; exact hinv.sent_le)
  · intro hblocked
    have hover := Running.overflown ⟨⟨sent, hinv⟩, halive⟩ hblocked
    exact ⟨hover.child, hover.buffered⟩
  · rintro ⟨hchild, hfull⟩
    refine (hinv.blocked_iff halive).mpr ⟨hchild, ?_⟩
    have hlength := congrArg List.length hfull
    rw [hinv.buffered, length_messages, length_messages] at hlength
    exact Nat.eq_of_mul_eq_mul_left (by decide) hlength
  · obtain ⟨t, hrun, ht, hover⟩ := Running.exists_overflown hC ⟨⟨sent, hinv⟩, halive⟩
    refine ⟨t, hrun, hover, fun u hu => ?_⟩
    obtain ⟨hrunning, hover'⟩ := hover.runs hC ht hu
    exact ⟨hover', hrunning.2.parent_enabled⟩

/-- The child gets as far as its second write. -/
def oneMessage : List Label :=
  [.parent, .child, .child, .child, .child, .child, .child]

theorem fills_and_blocks_oneMessage :
    ∃ s t : State 30, (quietSystem 30).Runs s t ∧ Overflown t ∧
      t.pipe.buffered = mymessage ++ mymessage ∧ t.childSaid = [sendingMessage] := by
  have hstart : (system 30).Reachable (afterFork 30) :=
    TransitionSystem.Reachable.init rfl
  have hrun :=
    TransitionSystem.exists_reachable_of_exec
      oneMessage
      (fun s : State 30 => decide (s.child ≠ .terminated ∧ s.parent ≠ .terminated))
      hstart
      (by decide)
      (by decide +kernel)
  obtain ⟨s, hs, htest⟩ := hrun
  obtain ⟨hchild, hparent⟩ := of_decide_eq_true htest
  obtain ⟨-, hmain⟩ := fills_and_blocks 30 (by decide) s hs
  obtain ⟨-, t, hruns, hover, -⟩ := hmain ⟨hchild, hparent⟩
  exact ⟨s, t, hruns, hover, hover.buffered, hover.said⟩

end Main

end PipeBufferOverflow
end DupPipe
end OsSeminars
