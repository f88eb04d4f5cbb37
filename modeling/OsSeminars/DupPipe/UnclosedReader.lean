import OsSeminars.Foundation.TransitionSystem
import OsSeminars.Foundation.Pipe

/-!
# `unclosed-reader.c`: a writer that ends by `SIGPIPE`

The child writes a message into the pipe again and again, one byte at a time and
without an end. The parent reads five bytes, closes its read end and waits for
the child. With the handler of `SIGPIPE` installed before `fork`, the child is
to end in that handler at its next write.

The child holds no read end when it writes, and the parent cannot have read five
bytes before the child has written. So the read end that the parent closes is
the last one, and no write blocks any more.
-/

namespace OsSeminars
namespace DupPipe
namespace UnclosedReader

open Foundation

/-- `mymessage` as `strlen` sees it. -/
def mymessage : List UInt8 :=
  ['h', 'e', 'l', 'l', 'o', ' ', 'w', 'o', 'r', 'l', 'd', '\n'].map Char.toUInt8

/-- The child branch; `loop` tests `i < strlen(mymessage)`. -/
inductive ChildPc
  | closeRead
  | loop (i : Nat)
  | write (i : Nat)
  | sleep (i : Nat)
  | sigpipeHandler
  | exited (status : Nat)
  deriving DecidableEq

/-- The parent branch; `read` is the loop condition and `print` the body. -/
inductive ParentPc
  | closeWrite
  | read
  | print (ch : UInt8)
  | closeRead
  | wait
  | return0
  | exited
  deriving DecidableEq

structure State (C : Nat) where
  pipe : Pipe UInt8 C
  child : ChildPc
  childEnds : PipeEnds
  parent : ParentPc
  parentEnds : PipeEnds
  counter : Int
  /-- the bytes that `read` returned to the parent -/
  received : List UInt8

/-- Which process moves. -/
inductive Label
  | child
  | parent
  deriving DecidableEq

/-- The state after a successful `fork`. -/
def afterFork
    (C : Nat) :
    State C where
  pipe := .fresh 2
  child := .closeRead
  childEnds _ := true
  parent := .closeWrite
  parentEnds _ := true
  counter := 5
  received := []

section Steps

variable {C : Nat} (message : List UInt8) (s : State C)

/-- `write(pipefd[WRITE], mymessage+i, 1)`, whose result is ignored. -/
def childWrite
    (i : Nat) :
    Option (State C) :=
  if s.childEnds .write = false then
    some { s with child := .sleep i }
  else if s.pipe.openEnds .read = 0 then
    some { s with child := .sigpipeHandler }
  else
    match s.pipe.accept ((message.drop i).take 1) with
    | none => none
    | some p => some { s with pipe := p, child := .sleep i }

/-- One step of the child. -/
def childNext :
    Option (State C) :=
  match s.child with
  | .closeRead =>
      let r := s.pipe.close s.childEnds .read
      some { s with pipe := r.1, childEnds := r.2, child := .loop 0 }
  | .loop i =>
      some { s with child := if i < message.length then .write i else .loop 0 }
  | .write i => childWrite message s i
  | .sleep i => some { s with child := .loop (i + 1) }
  | .sigpipeHandler =>
      let r := s.pipe.closeAll s.childEnds
      some { s with pipe := r.1, childEnds := r.2, child := .exited 1 }
  | .exited _ => none

/-- `read(pipefd[READ], &ch, 1) > 0 && --counter > 0`. -/
def parentRead :
    Option (State C) :=
  if s.parentEnds .read = false then
    some { s with parent := .closeRead }
  else
    match s.pipe.readOne with
    | .element ch p =>
        some { s with
          pipe := p
          received := s.received ++ [ch]
          counter := s.counter - 1
          parent := if s.counter - 1 > 0 then .print ch else .closeRead }
    | .endOfFile => some { s with parent := .closeRead }
    | .blocked => none

/-- One step of the parent. -/
def parentNext :
    Option (State C) :=
  match s.parent with
  | .closeWrite =>
      let r := s.pipe.close s.parentEnds .write
      some { s with pipe := r.1, parentEnds := r.2, parent := .read }
  | .read => parentRead s
  | .print _ => some { s with parent := .read }
  | .closeRead =>
      let r := s.pipe.close s.parentEnds .read
      some { s with pipe := r.1, parentEnds := r.2, parent := .wait }
  | .wait =>
      match s.child with
      | .exited _ => some { s with parent := .return0 }
      | _ => none
  | .return0 =>
      let r := s.pipe.closeAll s.parentEnds
      some { s with pipe := r.1, parentEnds := r.2, parent := .exited }
  | .exited => none

def next :
    Label → Option (State C)
  | .child => childNext message s
  | .parent => parentNext s

end Steps

/-- The two processes and the pipe of capacity `C` after `fork`. -/
def system
    (message : List UInt8)
    (C : Nat) :
    TransitionSystem (State C) Label :=
  .ofProgram (fun s => s = afterFork C) (fun _ _ => True) (next message)

/-- The ends the child holds at each point. -/
def childHolds : ChildPc → PipeEnds
  | .closeRead => fun _ => true
  | .exited _ => fun _ => false
  | _ => fun e => decide (e = .write)

/-- The ends the parent holds at each point. -/
def parentHolds : ParentPc → PipeEnds
  | .closeWrite => fun _ => true
  | .read => fun e => decide (e = .read)
  | .print _ => fun e => decide (e = .read)
  | .closeRead => fun e => decide (e = .read)
  | _ => fun _ => false

/-- Some rounds of the message and the first `i` bytes of a further one. -/
def Rounds
    (message : List UInt8)
    (i : Nat)
    (bytes : List UInt8) :
    Prop :=
  i ≤ message.length ∧
    ∃ n, bytes = (List.replicate n message).flatten ++ message.take i

/-- What the child has written when it is at a point. -/
def Written
    (message bytes : List UInt8) :
    ChildPc → Prop
  | .closeRead => bytes = []
  | .loop i => Rounds message i bytes
  | .write i => i < message.length ∧ Rounds message i bytes
  | .sleep i => i < message.length ∧ Rounds message (i + 1) bytes
  | .sigpipeHandler => ∃ i, Rounds message i bytes
  | .exited _ => ∃ i, Rounds message i bytes

/-- The parent has left its read loop. -/
def PastLoop : ParentPc → Prop
  | .closeWrite => False
  | .read => False
  | .print _ => False
  | _ => True

structure Inv
    {C : Nat}
    (message : List UInt8)
    (s : State C) :
    Prop where
  child_ends : s.childEnds = childHolds s.child
  parent_ends : s.parentEnds = parentHolds s.parent
  counts : s.pipe.openEnds = Pipe.endsOf s.childEnds s.parentEnds
  stream : Written message (s.received ++ s.pipe.buffered) s.child
  past_loop : PastLoop s.parent → s.child ≠ .closeRead

section Preservation

variable {C : Nat} {message : List UInt8} {s t : State C}

theorem rounds_zero
    (message : List UInt8) :
    Rounds message 0 [] :=
  ⟨Nat.zero_le _, 0, by simp⟩

/-- A complete round is the start of the next one. -/
theorem Rounds.restart
    {i : Nat}
    {bytes : List UInt8}
    (h : Rounds message i bytes)
    (hend : ¬ i < message.length) :
    Rounds message 0 bytes := by
  obtain ⟨hle, n, rfl⟩ := h
  have hi : i = message.length := by
    omega
  subst hi
  exact ⟨Nat.zero_le _, n + 1, by simp [List.replicate_succ']⟩

theorem Rounds.write
    {i : Nat}
    {bytes : List UInt8}
    (h : Rounds message i bytes)
    (hi : i < message.length) :
    Rounds message (i + 1) (bytes ++ (message.drop i).take 1) := by
  obtain ⟨-, n, rfl⟩ := h
  refine ⟨hi, n, ?_⟩
  rw [List.take_add, List.append_assoc]

/-- Everything written is a prefix of the repeated message. -/
theorem Rounds.isPrefix
    {i : Nat}
    {bytes : List UInt8}
    (h : Rounds message i bytes) :
    ∃ n, bytes <+: (List.replicate n message).flatten := by
  obtain ⟨-, n, rfl⟩ := h
  refine ⟨n + 1, ?_⟩
  rw [List.replicate_succ', List.flatten_append]
  refine List.prefix_append_right_inj _ |>.mpr ?_
  simpa using List.take_prefix i message

theorem Written.isPrefix
    {bytes : List UInt8}
    {pc : ChildPc}
    (h : Written message bytes pc) :
    ∃ n, bytes <+: (List.replicate n message).flatten := by
  cases pc with
  | closeRead =>
      have hnil : bytes = [] := h
      exact ⟨0, by simp [hnil]⟩
  | loop i =>
      exact Rounds.isPrefix h
  | write i =>
      exact Rounds.isPrefix h.2
  | sleep i =>
      exact Rounds.isPrefix h.2
  | sigpipeHandler =>
      obtain ⟨i, hi⟩ := h
      exact hi.isPrefix
  | exited status =>
      obtain ⟨i, hi⟩ := h
      exact hi.isPrefix

theorem inv_afterFork
    (message : List UInt8)
    (C : Nat) :
    Inv message (afterFork C) where
  child_ends := rfl
  parent_ends := rfl
  counts := by
    funext e
    cases e <;> rfl
  stream := rfl
  past_loop := fun h => h.elim

/-- A step of the child that changes no data in the pipe. -/
theorem Inv.childCloses
    (hinv : Inv message s)
    {p : Pipe UInt8 C}
    {ends : PipeEnds}
    {pc : ChildPc}
    (hends : ends = childHolds pc)
    (hcounts : p.openEnds = Pipe.endsOf ends s.parentEnds)
    (hbuffered : p.buffered = s.pipe.buffered)
    (hwritten : Written message (s.received ++ s.pipe.buffered) pc)
    (hpc : pc ≠ .closeRead) :
    Inv message { s with pipe := p, childEnds := ends, child := pc } where
  child_ends := hends
  parent_ends := hinv.parent_ends
  counts := hcounts
  stream := by
    simp only [hbuffered]
    exact hwritten
  past_loop := fun _ => hpc

/-- A step of the child that leaves the pipe alone. -/
theorem Inv.childMoves
    (hinv : Inv message s)
    {pc : ChildPc}
    (hends : childHolds s.child = childHolds pc)
    (hwritten : Written message (s.received ++ s.pipe.buffered) pc)
    (hpc : pc ≠ .closeRead) :
    Inv message { s with child := pc } :=
  hinv.childCloses (hinv.child_ends.trans hends) hinv.counts rfl hwritten hpc

/-- A step of the parent that changes no data in the pipe. -/
theorem Inv.parentCloses
    (hinv : Inv message s)
    {p : Pipe UInt8 C}
    {ends : PipeEnds}
    {pc : ParentPc}
    (hends : ends = parentHolds pc)
    (hcounts : p.openEnds = Pipe.endsOf s.childEnds ends)
    (hbuffered : p.buffered = s.pipe.buffered)
    (hpast : PastLoop pc → s.child ≠ .closeRead) :
    Inv message { s with pipe := p, parentEnds := ends, parent := pc } where
  child_ends := hinv.child_ends
  parent_ends := hends
  counts := hcounts
  stream := by
    simp only [hbuffered]
    exact hinv.stream
  past_loop := hpast

/-- A step of the parent that leaves the pipe alone. -/
theorem Inv.parentMoves
    (hinv : Inv message s)
    {pc : ParentPc}
    (hends : parentHolds s.parent = parentHolds pc)
    (hpast : PastLoop pc → s.child ≠ .closeRead) :
    Inv message { s with parent := pc } :=
  hinv.parentCloses (hinv.parent_ends.trans hends) hinv.counts rfl hpast

theorem inv_childWrite
    {i : Nat}
    (hinv : Inv message s)
    (hpc : s.child = .write i)
    (h : childWrite message s i = some t) :
    Inv message t := by
  have hwrite : ¬ s.childEnds .write = false := by
    rw [hinv.child_ends, hpc]
    simp [childHolds]
  have hstream := hinv.stream
  rw [hpc] at hstream
  obtain ⟨hi, hrounds⟩ := hstream
  rw [childWrite, if_neg hwrite] at h
  split_ifs at h with hreaders
  · cases h
    exact hinv.childMoves (by rw [hpc]; rfl) ⟨i, hrounds⟩ (by simp)
  · cases haccept : s.pipe.accept ((message.drop i).take 1) with
    | none =>
        rw [haccept] at h
        cases h
    | some p =>
        rw [haccept] at h
        cases h
        obtain ⟨hbuffered, hopen⟩ := Pipe.accept_eq_some haccept
        refine
          { child_ends := ?_
            parent_ends := hinv.parent_ends
            counts := hopen.trans hinv.counts
            stream := ⟨hi, ?_⟩
            past_loop := fun _ => by simp }
        · rw [hinv.child_ends, hpc]
          rfl
        · rw [hbuffered, ← List.append_assoc]
          exact hrounds.write hi

theorem inv_childNext
    (hinv : Inv message s)
    (h : childNext message s = some t) :
    Inv message t := by
  have hstream := hinv.stream
  cases hpc : s.child with
  | closeRead =>
      simp only [childNext, hpc, Option.some.injEq] at h
      subst h
      rw [hpc] at hstream
      have hnil : s.received ++ s.pipe.buffered = [] := hstream
      refine hinv.childCloses ?_ (Pipe.close_openEnds_left hinv.counts .read)
        (Pipe.close_buffered ..) ?_ (by simp)
      · rw [Pipe.close_ends, hinv.child_ends, hpc]
        funext e
        cases e <;> rfl
      · rw [hnil]
        exact rounds_zero message
  | loop i =>
      simp only [childNext, hpc, Option.some.injEq] at h
      subst h
      rw [hpc] at hstream
      have hrounds : Rounds message i (s.received ++ s.pipe.buffered) := hstream
      by_cases hi : i < message.length
      · rw [if_pos hi]
        exact hinv.childMoves (by rw [hpc]; rfl) ⟨hi, hrounds⟩ (by simp)
      · rw [if_neg hi]
        exact hinv.childMoves (by rw [hpc]; rfl) (hrounds.restart hi) (by simp)
  | write i =>
      simp only [childNext, hpc] at h
      exact inv_childWrite hinv hpc h
  | sleep i =>
      simp only [childNext, hpc, Option.some.injEq] at h
      subst h
      rw [hpc] at hstream
      exact hinv.childMoves (by rw [hpc]; rfl) hstream.2 (by simp)
  | sigpipeHandler =>
      simp only [childNext, hpc, Option.some.injEq] at h
      subst h
      rw [hpc] at hstream
      exact hinv.childCloses (Pipe.closeAll_ends ..)
        (Pipe.closeAll_openEnds_left hinv.counts) (Pipe.closeAll_buffered ..)
        hstream (by simp)
  | exited status =>
      simp [childNext, hpc] at h

theorem inv_parentRead
    (hinv : Inv message s)
    (hpc : s.parent = .read)
    (h : parentRead s = some t) :
    Inv message t := by
  have hholds : s.parentEnds .read = true := by
    rw [hinv.parent_ends, hpc]
    rfl
  have hread : ¬ s.parentEnds .read = false := by
    rw [hholds]
    exact Bool.noConfusion
  have hstream := hinv.stream
  rw [parentRead, if_neg hread] at h
  cases hbuffered : s.pipe.buffered with
  | nil =>
      rw [Pipe.readOne_nil hbuffered] at h
      by_cases hwriters : s.pipe.openEnds .write = 0
      · -- the end of the file: the child has exited
        rw [if_pos hwriters] at h
        cases h
        refine hinv.parentMoves (by rw [hpc]; rfl) (fun _ hchild => ?_)
        rw [hinv.counts, Pipe.endsOf, hinv.child_ends, hchild] at hwriters
        simp [childHolds] at hwriters
      · rw [if_neg hwriters] at h
        cases h
  | cons ch rest =>
      obtain ⟨p, hp, hrest, hopen⟩ := Pipe.readOne_cons hbuffered
      rw [hp] at h
      cases h
      refine
        { child_ends := hinv.child_ends
          parent_ends := ?_
          counts := hopen.trans hinv.counts
          stream := ?_
          past_loop := fun _ hchild => ?_ }
      · rw [hinv.parent_ends, hpc]
        dsimp only
        split_ifs <;> rfl
      · simpa [hrest, hbuffered] using hstream
      · -- before its first step the child has written nothing
        have hnone : Written message (s.received ++ s.pipe.buffered) .closeRead :=
          hchild ▸ hstream
        have hnil : s.received ++ s.pipe.buffered = [] := hnone
        simp [hbuffered] at hnil

theorem inv_parentNext
    (hinv : Inv message s)
    (h : parentNext s = some t) :
    Inv message t := by
  cases hpc : s.parent with
  | closeWrite =>
      simp only [parentNext, hpc, Option.some.injEq] at h
      subst h
      refine hinv.parentCloses ?_ (Pipe.close_openEnds_right hinv.counts .write)
        (Pipe.close_buffered ..) (fun hpast => hpast.elim)
      rw [Pipe.close_ends, hinv.parent_ends, hpc]
      funext e
      cases e <;> rfl
  | read =>
      simp only [parentNext, hpc] at h
      exact inv_parentRead hinv hpc h
  | print ch =>
      simp only [parentNext, hpc, Option.some.injEq] at h
      subst h
      exact hinv.parentMoves (by rw [hpc]; rfl) (fun hpast => hpast.elim)
  | closeRead =>
      simp only [parentNext, hpc, Option.some.injEq] at h
      subst h
      refine hinv.parentCloses ?_ (Pipe.close_openEnds_right hinv.counts .read)
        (Pipe.close_buffered ..) (fun _ => hinv.past_loop (by rw [hpc]; trivial))
      rw [Pipe.close_ends, hinv.parent_ends, hpc]
      funext e
      cases e <;> rfl
  | wait =>
      simp only [parentNext, hpc] at h
      cases hchild : s.child with
      | exited status =>
          have hreturn : Inv message { s with parent := .return0 } :=
            hinv.parentMoves (by rw [hpc]; rfl) (fun _ => by simp [hchild])
          rw [hchild] at h hreturn
          cases h
          exact hreturn
      | _ => simp [hchild] at h
  | return0 =>
      simp only [parentNext, hpc, Option.some.injEq] at h
      subst h
      exact hinv.parentCloses (Pipe.closeAll_ends ..)
        (Pipe.closeAll_openEnds_right hinv.counts) (Pipe.closeAll_buffered ..)
        (fun _ => hinv.past_loop (by rw [hpc]; trivial))
  | exited =>
      simp [parentNext, hpc] at h

theorem inv_of_reachable
    (h : (system message C).Reachable s) :
    Inv message s := by
  refine h.invariant (I := Inv message) ?_ ?_
  · rintro s rfl
    exact inv_afterFork message C
  · rintro s a t hinv ⟨-, hnext⟩
    cases a with
    | child =>
        exact inv_childNext hinv hnext
    | parent =>
        exact inv_parentNext hinv hnext

end Preservation

section Termination

variable {C : Nat} {message : List UInt8} {s : State C}

/-- The child is in `write` and the call does not return. -/
def ChildBlocked
    (message : List UInt8)
    (s : State C) :
    Prop :=
  (∃ i, s.child = .write i) ∧ ¬ (system message C).Enabled s .child

/-- The read end that the parent closes is the last one. -/
theorem Inv.no_reader
    (hinv : Inv message s)
    (hclosed : s.parentEnds .read = false) :
    s.childEnds .read = false ∧ s.pipe.openEnds .read = 0 := by
  have hpast : PastLoop s.parent := by
    rw [hinv.parent_ends] at hclosed
    cases hpc : s.parent <;> rw [hpc] at hclosed <;> trivial
  have hchild : s.childEnds .read = false := by
    have hne := hinv.past_loop hpast
    rw [hinv.child_ends]
    cases hpc : s.child with
    | closeRead =>
        exact absurd hpc hne
    | _ => rfl
  refine ⟨hchild, ?_⟩
  rw [hinv.counts]
  simp [Pipe.endsOf, hchild, hclosed]

/-- A write after that runs the handler, which ends the child. -/
theorem Inv.write_ends_child
    {i : Nat}
    (hinv : Inv message s)
    (hclosed : s.parentEnds .read = false)
    (hpc : s.child = .write i) :
    ∃ t u, (system message C).step s .child t ∧ t.child = .sigpipeHandler ∧
      (system message C).step t .child u ∧ u.child = .exited 1 := by
  have hwrite : ¬ s.childEnds .write = false := by
    rw [hinv.child_ends, hpc]
    simp [childHolds]
  have hfirst : childNext message s = some { s with child := .sigpipeHandler } := by
    simp only [childNext, hpc]
    rw [childWrite, if_neg hwrite, if_pos (hinv.no_reader hclosed).2]
  exact ⟨_, _, ⟨trivial, hfirst⟩, rfl, ⟨trivial, rfl⟩, rfl⟩

/-- In every interleaving the parent reads a prefix of the repeated message, its
close leaves no read end open, and from then on a write of the child ends it in
the handler; so the parent never waits for a child that is blocked in `write`. -/
theorem child_ends_by_sigpipe
    (message : List UInt8)
    (C : Nat)
    (s : State C)
    (h : (system message C).Reachable s) :
    (∃ n, s.received <+: (List.replicate n message).flatten) ∧
    (s.parentEnds .read = false →
      s.childEnds .read = false ∧ s.pipe.openEnds .read = 0) ∧
    (s.parentEnds .read = false → ∀ i, s.child = .write i →
      ∃ t u, (system message C).step s .child t ∧ t.child = .sigpipeHandler ∧
        (system message C).step t .child u ∧ u.child = .exited 1) ∧
    ¬ (s.parent = .wait ∧ ChildBlocked message s) := by
  have hinv := inv_of_reachable h
  refine ⟨?_, hinv.no_reader, fun hclosed i hpc =>
    hinv.write_ends_child hclosed hpc, ?_⟩
  · obtain ⟨n, hn⟩ := hinv.stream.isPrefix
    exact ⟨n, (List.prefix_append _ _).trans hn⟩
  · rintro ⟨hwait, ⟨i, hpc⟩, hblocked⟩
    have hclosed : s.parentEnds .read = false := by
      rw [hinv.parent_ends, hwait]
      rfl
    obtain ⟨t, -, hstep, -⟩ := hinv.write_ends_child hclosed hpc
    exact hblocked ⟨t, hstep⟩

/-- The child writes a byte, and the parent reads it and moves on. -/
def oneByte : List Label :=
  [.child, .child, .child, .parent, .parent]

/-- A run in which the parent waits while the child is in its sixth write. -/
def waitingParent : List Label :=
  [.child, .parent] ++ oneByte ++ oneByte ++ oneByte ++ oneByte ++ oneByte ++
    [.child]

theorem child_ends_by_sigpipe_waitingParent :
    ∃ s : State 1, (system mymessage 1).Reachable s ∧
      (s.received = mymessage.take 5 ∧ s.parent = .wait ∧ s.child = .write 5) ∧
      ∃ t u, (system mymessage 1).step s .child t ∧ t.child = .sigpipeHandler ∧
        (system mymessage 1).step t .child u ∧ u.child = .exited 1 := by
  have hstart : (system mymessage 1).Reachable (afterFork 1) :=
    TransitionSystem.Reachable.init rfl
  have hrun :=
    TransitionSystem.exists_reachable_of_exec
      waitingParent
      (fun s => decide (s.received = mymessage.take 5 ∧ s.parent = .wait ∧
        s.child = .write 5 ∧ s.parentEnds .read = false))
      hstart
      (by decide)
      (by decide +kernel)
  obtain ⟨s, hs, htest⟩ := hrun
  obtain ⟨hreceived, hparent, hchild, hclosed⟩ := of_decide_eq_true htest
  obtain ⟨-, -, hends, -⟩ := child_ends_by_sigpipe mymessage 1 s hs
  exact ⟨s, hs, ⟨hreceived, hparent, hchild⟩, hends hclosed 5 hchild⟩

end Termination

end UnclosedReader
end DupPipe
end OsSeminars
