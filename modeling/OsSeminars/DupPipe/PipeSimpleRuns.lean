import OsSeminars.DupPipe.PipeSimple

/-!
# 14-dup-pipe/pipe: every interleaving of the message exchange

The invariant of the exchange says which ends each process holds at each
point, that the counts of the pipe are the sums over both processes, and that
the bytes received, buffered and not yet written are the message in this order.

From it follow the properties of all three programs: the parent reads a prefix
of the message and leaves its loop only with the whole message, the child never
writes without a reader, and some process can always move until both have
terminated. As every step leaves less to do, all runs do end.
-/

namespace OsSeminars
namespace DupPipe

open Foundation

/-- The ends the child holds at each point. -/
def childHolds : ChildPc → PipeEnds
  | .closeRead => fun _ => true
  | .write _ => fun e => decide (e = .write)
  | .closeWrite => fun e => decide (e = .write)
  | .return0 => fun _ => false
  | .exited => fun _ => false
  | .killedBySigpipe => fun _ => false

/-- The ends the parent holds at each point. -/
def parentHolds : ParentPc → PipeEnds
  | .closeWrite => fun _ => true
  | .read => fun e => decide (e = .read)
  | .print _ => fun e => decide (e = .read)
  | .closeRead => fun e => decide (e = .read)
  | .wait => fun _ => false
  | .return0 => fun _ => false
  | .exited => fun _ => false

/-- The bytes of the message that no write has been accepted for. -/
def unwritten (x : Exchange) : ChildPc → List UInt8
  | .closeRead => x.mymessage
  | .write rest => rest
  | _ => []

/-- The read loop of the parent is not finished. -/
def InLoop : ParentPc → Prop
  | .closeWrite => True
  | .read => True
  | .print _ => True
  | _ => False

/-- What the parent is about to print. -/
def unprinted : ParentPc → List UInt8
  | .print ch => recvLine ch
  | _ => []

/-- The programs close and use the ends that their names say. -/
structure ProperFds (x : Exchange) : Prop where
  read_eq : x.readFd = .read
  write_eq : x.writeFd = .write

structure Inv
    {C : Nat}
    (x : Exchange)
    (s : State C) : Prop where
  child_ends : s.childEnds = childHolds s.child
  parent_ends : s.parentEnds = parentHolds s.parent
  counts : s.pipe.openEnds = Pipe.endsOf s.childEnds s.parentEnds
  stream :
    s.received ++ s.pipe.buffered ++ unwritten x s.child = x.mymessage
  alive : s.child ≠ .killedBySigpipe
  after_loop :
    ¬ InLoop s.parent →
      s.childEnds .write = false ∧ s.pipe.buffered = []
  shown : s.stdout ++ unprinted s.parent = s.received.flatMap recvLine

section Preservation

variable {x : Exchange} {C : Nat} {s t : State C}

theorem inv_afterFork
    (x : Exchange)
    (C : Nat) :
    Inv x (afterFork C) where
  child_ends := rfl
  parent_ends := rfl
  counts := by
    funext e
    cases e <;> rfl
  stream := rfl
  alive := fun h => by cases h
  after_loop := fun h => absurd trivial h
  shown := rfl

theorem inv_childClose
    (hinv : Inv x s)
    (fd : PipeEnd)
    (pc : ChildPc)
    (hends : Function.update (childHolds s.child) fd false = childHolds pc)
    (hdata : unwritten x pc = unwritten x s.child)
    (hpc : pc ≠ .killedBySigpipe) :
    Inv x (childClose s fd pc) := by
  have hends' : (s.pipe.close s.childEnds fd).2 = childHolds pc := by
    rw [Pipe.close_ends, hinv.child_ends, hends]
  refine
    { child_ends := hends'
      parent_ends := hinv.parent_ends
      counts := Pipe.close_openEnds_left hinv.counts fd
      stream := ?_
      alive := hpc
      after_loop := fun h => ?_
      shown := hinv.shown }
  · simp only [childClose, Pipe.close_buffered, hdata]
    exact hinv.stream
  · obtain ⟨hwrite, hbuf⟩ := hinv.after_loop h
    refine ⟨?_, ?_⟩
    · simp only [childClose]
      rw [Pipe.close_ends]
      by_cases hfd : fd = .write
      · subst hfd
        simp
      · rw [Function.update_of_ne (Ne.symm hfd)]
        exact hwrite
    · simp only [childClose, Pipe.close_buffered]
      exact hbuf

theorem inv_parentClose
    (hinv : Inv x s)
    (fd : PipeEnd)
    (pc : ParentPc)
    (hends : Function.update (parentHolds s.parent) fd false = parentHolds pc)
    (hloop : InLoop s.parent → InLoop pc ∨
      s.childEnds .write = false ∧ s.pipe.buffered = [])
    (hshown : unprinted pc = unprinted s.parent) :
    Inv x (parentClose s fd pc) := by
  have hends' : (s.pipe.close s.parentEnds fd).2 = parentHolds pc := by
    rw [Pipe.close_ends, hinv.parent_ends, hends]
  refine
    { child_ends := hinv.child_ends
      parent_ends := hends'
      counts := Pipe.close_openEnds_right hinv.counts fd
      stream := ?_
      alive := hinv.alive
      after_loop := fun h => ?_
      shown := ?_ }
  · simp only [parentClose, Pipe.close_buffered]
    exact hinv.stream
  · simp only [parentClose, Pipe.close_buffered]
    by_cases hin : InLoop s.parent
    · exact (hloop hin).resolve_left h
    · exact hinv.after_loop hin
  · simp only [parentClose, hshown]
    exact hinv.shown

/-- While the child has not closed its write end, the parent can be read from. -/
theorem reader_open
    (hinv : Inv x s)
    (hwrite : s.childEnds .write = true) :
    0 < s.pipe.openEnds .read := by
  have hloop : InLoop s.parent := by
    by_contra hout
    rw [(hinv.after_loop hout).1] at hwrite
    cases hwrite
  have hread : s.parentEnds .read = true := by
    rw [hinv.parent_ends]
    cases hp : s.parent <;> simp [hp, InLoop] at hloop <;> rfl
  rw [hinv.counts]
  simp [Pipe.endsOf, hread]

theorem inv_childWrite
    (hx : ProperFds x)
    (hinv : Inv x s)
    {rest : List UInt8}
    {accepted : Nat}
    (hpc : s.child = .write rest)
    (h : childWrite x s rest accepted = some t) :
    Inv x t := by
  have hends : s.childEnds = fun e => decide (e = .write) := by
    rw [hinv.child_ends, hpc]
    rfl
  have hwrite : s.childEnds .write = true := by
    rw [hends]
    rfl
  have hstream : s.received ++ s.pipe.buffered ++ rest = x.mymessage := by
    have hdata := hinv.stream
    rw [hpc] at hdata
    exact hdata
  unfold childWrite at h
  split_ifs at h with hdone hpipe hpart
  · -- the call returns
    have hrest : rest = [] := by
      rcases hdone with hnil | hfd | hclosed
      · exact hnil
      · rw [hx.write_eq] at hfd
        cases hfd
      · rw [hwrite] at hclosed
        cases hclosed
    cases h
    refine
      { child_ends := hends
        parent_ends := hinv.parent_ends
        counts := hinv.counts
        stream := ?_
        alive := fun h => by cases h
        after_loop := hinv.after_loop
        shown := hinv.shown }
    rw [hrest] at hstream
    exact hstream
  · -- no reader left: excluded while the child holds its write end
    have hpos := reader_open hinv hwrite
    omega
  · -- a part of the message is accepted
    cases haccept : s.pipe.accept (rest.take accepted) with
    | none =>
        rw [haccept] at h
        cases h
    | some p =>
        rw [haccept] at h
        cases h
        obtain ⟨hbuf, hopen⟩ := Pipe.accept_eq_some haccept
        refine
          { child_ends := hends
            parent_ends := hinv.parent_ends
            counts := hopen.trans hinv.counts
            stream := ?_
            alive := fun h => by cases h
            after_loop := fun hout => ?_
            shown := hinv.shown }
        · show s.received ++ p.buffered ++ rest.drop accepted = x.mymessage
          rw [hbuf, ← hstream]
          simp [List.append_assoc]
        · rw [(hinv.after_loop hout).1] at hwrite
          cases hwrite

theorem inv_parentRead
    (hx : ProperFds x)
    (hinv : Inv x s)
    (hpc : s.parent = .read)
    (h : parentRead x s = some t) :
    Inv x t := by
  have hends : s.parentEnds = fun e => decide (e = .read) := by
    rw [hinv.parent_ends, hpc]
    rfl
  have hread : s.parentEnds .read = true := by
    rw [hends]
    rfl
  have hshown : s.stdout = s.received.flatMap recvLine := by
    have hall := hinv.shown
    rw [hpc] at hall
    simpa [unprinted] using hall
  unfold parentRead at h
  rw [if_neg (by simp [hx.read_eq, hread])] at h
  cases hbuf : s.pipe.buffered with
  | cons ch rest =>
      obtain ⟨q, hq, hqbuf, hqopen⟩ := Pipe.readOne_cons hbuf
      rw [hq] at h
      cases h
      refine
        { child_ends := hinv.child_ends
          parent_ends := hends
          counts := hqopen.trans hinv.counts
          stream := ?_
          alive := hinv.alive
          after_loop := fun hout => absurd trivial hout
          shown := ?_ }
      · have hdata := hinv.stream
        rw [hbuf] at hdata
        simpa [hqbuf] using hdata
      · simp [hshown, unprinted]
  | nil =>
      rw [Pipe.readOne_nil hbuf] at h
      split_ifs at h with hzero
      cases h
      refine
        { child_ends := hinv.child_ends
          parent_ends := hends
          counts := hinv.counts
          stream := hinv.stream
          alive := hinv.alive
          after_loop := fun _ => ⟨?_, hbuf⟩
          shown := by simpa [unprinted] using hshown }
      -- end of file: the count of write ends is the child's flag
      rw [hinv.counts] at hzero
      simpa [Pipe.endsOf] using (Nat.add_eq_zero_iff.mp hzero).1

/-- Leaving a process keeps the invariant: it holds no ends any more. -/
theorem inv_childExit
    (hinv : Inv x s)
    (hpc : s.child = .return0) :
    Inv x
      { s with
        pipe := (s.pipe.closeAll s.childEnds).1
        childEnds := (s.pipe.closeAll s.childEnds).2
        child := .exited } := by
  have hnone : s.childEnds = fun _ => false := by
    rw [hinv.child_ends, hpc]
    rfl
  have hclose : s.pipe.closeAll s.childEnds = (s.pipe, s.childEnds) := by
    rw [hnone]
    rfl
  rw [hclose]
  refine
    { child_ends := hnone
      parent_ends := hinv.parent_ends
      counts := hinv.counts
      stream := ?_
      alive := fun h => by cases h
      after_loop := hinv.after_loop
      shown := hinv.shown }
  have hdata := hinv.stream
  rw [hpc] at hdata
  exact hdata

theorem inv_parentExit
    (hinv : Inv x s)
    (hpc : s.parent = .return0) :
    Inv x
      { s with
        pipe := (s.pipe.closeAll s.parentEnds).1
        parentEnds := (s.pipe.closeAll s.parentEnds).2
        parent := .exited } := by
  have hnone : s.parentEnds = fun _ => false := by
    rw [hinv.parent_ends, hpc]
    rfl
  have hclose : s.pipe.closeAll s.parentEnds = (s.pipe, s.parentEnds) := by
    rw [hnone]
    rfl
  rw [hclose]
  refine
    { child_ends := hinv.child_ends
      parent_ends := hnone
      counts := hinv.counts
      stream := hinv.stream
      alive := hinv.alive
      after_loop := fun _ => hinv.after_loop (by rw [hpc]; exact not_false)
      shown := ?_ }
  have hshown := hinv.shown
  rw [hpc] at hshown
  exact hshown

theorem inv_childNext
    (hx : ProperFds x)
    (hinv : Inv x s)
    {accepted : Nat}
    (h : childNext x s accepted = some t) :
    Inv x t := by
  unfold childNext at h
  cases hpc : s.child with
  | closeRead =>
      rw [hpc] at h
      cases h
      refine inv_childClose hinv _ _ ?_ ?_ (fun h => by cases h)
      · rw [hpc, hx.read_eq]
        funext e
        cases e <;> rfl
      · rw [hpc]
        rfl
  | write rest =>
      rw [hpc] at h
      exact inv_childWrite hx hinv hpc h
  | closeWrite =>
      rw [hpc] at h
      cases h
      refine inv_childClose hinv _ _ ?_ ?_ (fun h => by cases h)
      · rw [hpc, hx.write_eq]
        funext e
        cases e <;> rfl
      · rw [hpc]
        rfl
  | return0 =>
      rw [hpc] at h
      cases h
      exact inv_childExit hinv hpc
  | exited =>
      rw [hpc] at h
      cases h
  | killedBySigpipe =>
      exact absurd hpc hinv.alive

theorem inv_parentNext
    (hx : ProperFds x)
    (hinv : Inv x s)
    (h : parentNext x s = some t) :
    Inv x t := by
  unfold parentNext at h
  cases hpc : s.parent with
  | closeWrite =>
      rw [hpc] at h
      cases h
      refine inv_parentClose hinv _ _ ?_ (fun _ => Or.inl trivial) ?_
      · rw [hpc, hx.write_eq]
        funext e
        cases e <;> rfl
      · rw [hpc]
        rfl
  | read =>
      rw [hpc] at h
      exact inv_parentRead hx hinv hpc h
  | print ch =>
      rw [hpc] at h
      cases h
      have hshown := hinv.shown
      rw [hpc] at hshown
      exact
        { child_ends := hinv.child_ends
          parent_ends := by rw [hinv.parent_ends, hpc]; rfl
          counts := hinv.counts
          stream := hinv.stream
          alive := hinv.alive
          after_loop := fun hout => absurd trivial hout
          shown := by simpa [unprinted] using hshown }
  | closeRead =>
      rw [hpc] at h
      cases h
      refine inv_parentClose hinv _ _ ?_ ?_ ?_
      · rw [hpc, hx.read_eq]
        funext e
        cases e <;> rfl
      · rw [hpc]
        exact fun hin => hin.elim
      · rw [hpc]
        rfl
  | wait =>
      rw [hpc] at h
      dsimp only at h
      split_ifs at h
      cases h
      have hshown := hinv.shown
      rw [hpc] at hshown
      exact
        { child_ends := hinv.child_ends
          parent_ends := by rw [hinv.parent_ends, hpc]; rfl
          counts := hinv.counts
          stream := hinv.stream
          alive := hinv.alive
          after_loop := fun _ => hinv.after_loop (by rw [hpc]; exact not_false)
          shown := hshown }
  | return0 =>
      rw [hpc] at h
      cases h
      exact inv_parentExit hinv hpc
  | exited =>
      rw [hpc] at h
      cases h

theorem inv_of_reachable
    (hx : ProperFds x)
    (h : (system x C).Reachable s) :
    Inv x s := by
  refine h.invariant ?_ ?_
  · rintro _ rfl
    exact inv_afterFork x C
  · rintro _ (accepted | _) _ hinv ⟨-, hnext⟩
    · exact inv_childNext hx hinv hnext
    · exact inv_parentNext hx hinv hnext

end Preservation

section Progress

variable {x : Exchange} {C : Nat} {s : State C}

theorem enabled_iff
    {a : Label} :
    (system x C).Enabled s a ↔ (next x s a).isSome = true := by
  simp [system, TransitionSystem.enabled_ofProgram_iff]

/-- The child can move unless it has exited or waits for room in the pipe. -/
theorem child_enabled_or
    (hC : 1 ≤ C)
    (hinv : Inv x s) :
    (∃ accepted, (system x C).Enabled s (.child accepted)) ∨
    s.child = .exited ∨
    (s.childEnds .write = true ∧ s.pipe.buffered ≠ []) := by
  simp only [enabled_iff, next, childNext]
  cases hpc : s.child with
  | write rest =>
      have hwrite : s.childEnds .write = true := by
        rw [hinv.child_ends, hpc]
        rfl
      by_cases hbuf : s.pipe.buffered = []
      · refine Or.inl ⟨1, ?_⟩
        -- one byte always fits into the empty pipe
        have hroom :
            s.pipe.buffered.length + (rest.take 1).length ≤ C := by
          rw [hbuf, List.length_take, List.length_nil]
          omega
        have hsome := Pipe.accept_isSome_iff.mpr hroom
        obtain ⟨p, hp⟩ := Option.isSome_iff_exists.mp hsome
        show (childWrite x s rest 1).isSome = true
        unfold childWrite
        split_ifs with hdone hpipe hpart
        · rfl
        · rfl
        · rw [hp]
          rfl
        · have hnil : rest ≠ [] := fun h => hdone (Or.inl h)
          have hlen := List.length_pos_iff.mpr hnil
          omega
      · exact Or.inr (Or.inr ⟨hwrite, hbuf⟩)
  | exited => exact Or.inr (Or.inl rfl)
  | killedBySigpipe => exact absurd hpc hinv.alive
  | closeRead => exact Or.inl ⟨0, rfl⟩
  | closeWrite => exact Or.inl ⟨0, rfl⟩
  | return0 => exact Or.inl ⟨0, rfl⟩

/-- The parent can move unless it has exited, waits for the child, or reads
from an empty pipe that still has a write end. -/
theorem parent_enabled_or
    (hinv : Inv x s) :
    (system x C).Enabled s .parent ∨
    s.parent = .exited ∨
    (s.parent = .wait ∧ s.child ≠ .exited) ∨
    (s.parent = .read ∧ s.pipe.buffered = [] ∧ s.childEnds .write = true) := by
  simp only [enabled_iff, next, parentNext]
  cases hpc : s.parent with
  | read =>
      by_cases hbuf : s.pipe.buffered = []
      · by_cases hwrite : s.childEnds .write = true
        · exact Or.inr (Or.inr (Or.inr ⟨rfl, hbuf, hwrite⟩))
        · left
          have hzero : s.pipe.openEnds .write = 0 := by
            rw [hinv.counts]
            have hparent : s.parentEnds .write = false := by
              rw [hinv.parent_ends, hpc]
              rfl
            simp [Pipe.endsOf, hparent, hwrite]
          show (parentRead x s).isSome = true
          unfold parentRead
          split_ifs with hfd
          · rfl
          · rw [Pipe.readOne_nil hbuf, if_pos hzero]
            rfl
      · left
        obtain ⟨ch, rest, hcons⟩ := List.exists_cons_of_ne_nil hbuf
        obtain ⟨q, hq, -, -⟩ := Pipe.readOne_cons hcons
        show (parentRead x s).isSome = true
        unfold parentRead
        split_ifs with hfd
        · rfl
        · rw [hq]
          rfl
  | wait =>
      by_cases hchild : s.child = .exited
      · left
        dsimp only
        rw [if_pos (Or.inl hchild)]
        rfl
      · exact Or.inr (Or.inr (Or.inl ⟨rfl, hchild⟩))
  | exited => exact Or.inr (Or.inl rfl)
  | closeWrite => exact Or.inl rfl
  | print ch => exact Or.inl rfl
  | closeRead => exact Or.inl rfl
  | return0 => exact Or.inl rfl

/-- No state in which a process has not terminated is stuck. -/
theorem not_stuck
    (hC : 1 ≤ C)
    (hinv : Inv x s)
    (hrun : s.child ≠ .exited ∨ s.parent ≠ .exited) :
    ∃ a, (system x C).Enabled s a := by
  rcases child_enabled_or hC hinv with ⟨k, hk⟩ | hexit | ⟨hwrite, hbuf⟩
  · exact ⟨.child k, hk⟩
  · -- the child has exited: the parent reads on, or finds the end of file
    have hclosed : s.childEnds .write = false := by
      rw [hinv.child_ends, hexit]
      rfl
    rcases parent_enabled_or hinv with h | hdone | ⟨-, hnot⟩ | ⟨-, -, hopen⟩
    · exact ⟨.parent, h⟩
    · exact absurd hdone (hrun.resolve_left (fun h => h hexit))
    · exact absurd hexit hnot
    · rw [hclosed] at hopen
      cases hopen
  · -- the child waits for room: the parent is still in its loop and can read
    have hin : InLoop s.parent := by
      by_contra hout
      rw [(hinv.after_loop hout).1] at hwrite
      cases hwrite
    rcases parent_enabled_or hinv with h | hdone | ⟨hwait, -⟩ | ⟨-, hnil, -⟩
    · exact ⟨.parent, h⟩
    · rw [hdone] at hin
      exact hin.elim
    · rw [hwait] at hin
      exact hin.elim
    · exact absurd hnil hbuf

end Progress

section Termination

variable {x : Exchange} {C : Nat} {s t : State C}

/-- The statements left at each point of the child, without its bytes. -/
def childSteps : ChildPc → Nat
  | .closeRead => 4
  | .write _ => 3
  | .closeWrite => 2
  | .return0 => 1
  | .exited => 0
  | .killedBySigpipe => 0

/-- The statements left at each point of the parent, without further bytes. -/
def parentSteps : ParentPc → Nat
  | .closeWrite => 6
  | .print _ => 5
  | .read => 4
  | .closeRead => 3
  | .wait => 2
  | .return0 => 1
  | .exited => 0

/-- A byte is written, read and printed. -/
def stepsLeft
    {C : Nat}
    (x : Exchange)
    (s : State C) : Nat :=
  3 * (unwritten x s.child).length + 2 * s.pipe.buffered.length +
    childSteps s.child + parentSteps s.parent

theorem stepsLeft_childWrite
    {rest : List UInt8}
    {accepted : Nat}
    (hpc : s.child = .write rest)
    (h : childWrite x s rest accepted = some t) :
    stepsLeft x t < stepsLeft x s := by
  unfold childWrite at h
  split_ifs at h with hdone hpipe hpart
  · cases h
    simp only [stepsLeft, hpc, unwritten, childSteps, List.length_nil]
    omega
  · cases h
    simp only [stepsLeft, hpc, unwritten, childSteps, List.length_nil,
      Pipe.closeAll_buffered]
    omega
  · cases haccept : s.pipe.accept (rest.take accepted) with
    | none =>
        rw [haccept] at h
        cases h
    | some p =>
        rw [haccept] at h
        cases h
        obtain ⟨hbuf, -⟩ := Pipe.accept_eq_some haccept
        simp only [stepsLeft, hpc, unwritten, childSteps, hbuf,
          List.length_append, List.length_take, List.length_drop]
        omega

theorem stepsLeft_childNext
    {accepted : Nat}
    (h : childNext x s accepted = some t) :
    stepsLeft x t < stepsLeft x s := by
  unfold childNext at h
  cases hpc : s.child with
  | write rest =>
      rw [hpc] at h
      exact stepsLeft_childWrite hpc h
  | closeRead =>
      rw [hpc] at h
      cases h
      simp [stepsLeft, childClose, hpc, unwritten, childSteps]
  | closeWrite =>
      rw [hpc] at h
      cases h
      simp [stepsLeft, childClose, hpc, unwritten, childSteps]
  | return0 =>
      rw [hpc] at h
      cases h
      simp [stepsLeft, hpc, unwritten, childSteps]
  | exited =>
      rw [hpc] at h
      cases h
  | killedBySigpipe =>
      rw [hpc] at h
      cases h

theorem stepsLeft_parentRead
    (hpc : s.parent = .read)
    (h : parentRead x s = some t) :
    stepsLeft x t < stepsLeft x s := by
  unfold parentRead at h
  split_ifs at h with hfd
  · cases h
    simp [stepsLeft, hpc, parentSteps]
  · cases hbuf : s.pipe.buffered with
    | cons ch rest =>
        obtain ⟨q, hq, hqbuf, -⟩ := Pipe.readOne_cons hbuf
        rw [hq] at h
        cases h
        simp only [stepsLeft, hpc, parentSteps, hbuf, hqbuf, List.length_cons]
        omega
    | nil =>
        rw [Pipe.readOne_nil hbuf] at h
        split_ifs at h
        cases h
        simp [stepsLeft, hpc, parentSteps]

theorem stepsLeft_parentNext
    (h : parentNext x s = some t) :
    stepsLeft x t < stepsLeft x s := by
  unfold parentNext at h
  cases hpc : s.parent with
  | read =>
      rw [hpc] at h
      exact stepsLeft_parentRead hpc h
  | closeWrite =>
      rw [hpc] at h
      cases h
      simp [stepsLeft, parentClose, hpc, parentSteps]
  | print ch =>
      rw [hpc] at h
      cases h
      simp [stepsLeft, hpc, parentSteps]
  | closeRead =>
      rw [hpc] at h
      cases h
      simp [stepsLeft, parentClose, hpc, parentSteps]
  | wait =>
      rw [hpc] at h
      dsimp only at h
      split_ifs at h
      cases h
      simp [stepsLeft, hpc, parentSteps]
  | return0 =>
      rw [hpc] at h
      cases h
      simp [stepsLeft, hpc, parentSteps]
  | exited =>
      rw [hpc] at h
      cases h

/-- Every run of the exchange ends: its length is linear in the message. -/
theorem exchange_run_length_le
    (x : Exchange)
    (as : List Label)
    {t : State C}
    (hexec : TransitionSystem.exec (next x) (afterFork C) as = some t) :
    as.length ≤ 3 * x.mymessage.length + 10 := by
  have hstep :
      ∀ (s : State C) (a : Label) (t : State C),
        next x s a = some t → stepsLeft x t < stepsLeft x s := by
    intro s a t h
    cases a with
    | child accepted => exact stepsLeft_childNext h
    | parent => exact stepsLeft_parentNext h
  have hbound := TransitionSystem.length_le_of_exec hstep as hexec
  have hstart : stepsLeft x (afterFork C) = 3 * x.mymessage.length + 10 := by
    simp [stepsLeft, afterFork, unwritten, Pipe.fresh, childSteps, parentSteps]
  omega

end Termination

section Programs

/-- The three programs of this directory that exchange one message. -/
inductive Program where
  | pipeSimple
  | pipeSimpleAlternative
  | unclosedWriter

def Program.exchange (mymessage : List UInt8) : Program → Exchange
  | .pipeSimple => DupPipe.pipeSimple mymessage
  | .pipeSimpleAlternative => DupPipe.pipeSimpleAlternative mymessage
  | .unclosedWriter => DupPipe.unclosedWriter mymessage

theorem Program.properFds
    (program : Program)
    (mymessage : List UInt8) :
    ProperFds (program.exchange mymessage) := by
  cases program <;> exact ⟨rfl, rfl⟩

theorem Program.exchange_mymessage
    (program : Program)
    (mymessage : List UInt8) :
    (program.exchange mymessage).mymessage = mymessage := by
  cases program <;> rfl

/-- The read loop is left only when the whole message has been read. -/
theorem received_of_loop_left
    (program : Program)
    (mymessage : List UInt8)
    {C : Nat}
    {s : State C}
    (h : (system (program.exchange mymessage) C).Reachable s)
    (hout : ¬ InLoop s.parent) :
    s.received = mymessage := by
  have hinv := inv_of_reachable (program.properFds mymessage) h
  have hstream := hinv.stream
  rw [program.exchange_mymessage] at hstream
  obtain ⟨hwrite, hbuf⟩ := hinv.after_loop hout
  -- the child has closed its write end, so nothing is left to write
  have hnone : unwritten (program.exchange mymessage) s.child = [] := by
    rw [hinv.child_ends] at hwrite
    cases hpc : s.child <;> simp [hpc, childHolds] at hwrite <;> rfl
  simpa [hbuf, hnone] using hstream

/--
The exchange of one message, for every program, message, capacity and
interleaving: what the parent has read is a prefix of the message, and all of
it once the read loop is left; the child writes only while a read end is open
and is never killed; and a process can move until both have exited.
-/
theorem exchange_correct
    (program : Program)
    (mymessage : List UInt8)
    {C : Nat}
    (hC : 1 ≤ C)
    {s : State C}
    (h : (system (program.exchange mymessage) C).Reachable s) :
    s.received <+: mymessage ∧
    (¬ InLoop s.parent → s.received = mymessage) ∧
    (∀ rest, s.child = .write rest → 0 < s.pipe.openEnds .read) ∧
    s.child ≠ .killedBySigpipe ∧
    (s.child ≠ .exited ∨ s.parent ≠ .exited →
      ∃ a, (system (program.exchange mymessage) C).Enabled s a) := by
  have hinv := inv_of_reachable (program.properFds mymessage) h
  have hstream := hinv.stream
  rw [program.exchange_mymessage] at hstream
  refine ⟨?_, received_of_loop_left program mymessage h, ?_, hinv.alive,
    not_stuck hC hinv⟩
  · rw [List.append_assoc] at hstream
    exact ⟨_, hstream⟩
  · intro rest hpc
    refine reader_open hinv ?_
    rw [hinv.child_ends, hpc]
    rfl

/-- `"hi!"` -/
def threeBytes : List UInt8 :=
  [104, 105, 33]

/-- A schedule of three bytes over a pipe of capacity two, so that the child has to write
twice. -/
def threeBytesSchedule : List Label :=
  [.child 0, .parent, .child 2, .parent, .child 1, .parent, .parent, .parent, .parent,
    .parent, .child 0, .child 0, .parent, .child 0, .parent, .parent, .parent]

theorem exchange_correct_threeBytes :
    ∃ s : State 2,
      (system (Program.pipeSimple.exchange threeBytes) 2).Reachable s ∧
      s.child = .exited ∧
      s.parent = .exited ∧
      s.received = threeBytes := by
  have hstart :
      (system (Program.pipeSimple.exchange threeBytes) 2).Reachable (afterFork 2) :=
    TransitionSystem.Reachable.init rfl
  have hrun :=
    TransitionSystem.exists_reachable_of_exec
      threeBytesSchedule
      (fun s => decide (s.child = .exited ∧ s.parent = .exited))
      hstart
      (by decide)
      (by decide +kernel)
  obtain ⟨s, hs, hends⟩ := hrun
  obtain ⟨hchild, hparent⟩ := of_decide_eq_true hends
  have hcorrect :=
    exchange_correct .pipeSimple threeBytes (by decide : 1 ≤ 2) hs
  refine ⟨s, hs, hchild, hparent, hcorrect.2.1 ?_⟩
  rw [hparent]
  exact not_false

/-- Once the loop is left, the parent has printed one line for every byte. -/
theorem parent_shows_message
    (program : Program)
    (mymessage : List UInt8)
    {C : Nat}
    {s : State C}
    (h : (system (program.exchange mymessage) C).Reachable s)
    (hout : ¬ InLoop s.parent) :
    s.stdout = mymessage.flatMap recvLine := by
  have hinv := inv_of_reachable (program.properFds mymessage) h
  have hnone : unprinted s.parent = [] := by
    cases hpc : s.parent <;> simp [hpc, InLoop] at hout <;> rfl
  have hshown := hinv.shown
  rw [hnone, List.append_nil, received_of_loop_left program mymessage h hout]
    at hshown
  exact hshown

end Programs

end DupPipe
end OsSeminars
