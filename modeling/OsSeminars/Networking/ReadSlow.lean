import OsSeminars.Networking.ReadNonblock

/-!
# `read-slow.c`: two servers read one after the other

The client connects to two servers and reads from the first socket, then from the second
one, once from each. A read sleeps until something has arrived on its own socket, so a
server that is slow to answer holds up what the other one has sent long ago.

The servers and the other parties are those of `read-nonblock.c`. A read may fail, and
otherwise it returns some of the bytes that have arrived.
-/

namespace OsSeminars
namespace Networking
namespace ReadSlow

open Foundation
open SleepyServer (Server)
open ReadNonblock (ClientId N bufSize Foreign foreign_next first second)

/-- A line of output; `perror` writes to the standard error. -/
inductive Line
  /-- `connection ok` -/
  | connectionOk
  /-- `bytes read from %ld` with the index of the socket -/
  | bytesRead (i : Nat)
  /-- `eof` -/
  | eof
  | perror (call : String)
  deriving DecidableEq

/-- `main`: the calls of the first loop and the body of the second one. -/
inductive Pc
  | socket (i : Nat)
  | connect (i : Nat)
  | print (i : Nat)
  | read (i : Nat)
  | exited (status : Nat)
  deriving DecidableEq

structure State where
  pc : Pc
  /-- the sockets that have been closed -/
  closed : List (Fin N)
  out : List Line
  servers : Fin N → Server ClientId

/-- What a call of the client does; a read returns `count` bytes. -/
inductive Answer
  | ok (count : Nat)
  | error
  deriving DecidableEq

inductive Label
  | client (answer : Answer)
  | server (i : Fin N) (label : SleepyServer.Label ClientId)
  deriving DecidableEq

def start : State where
  pc := .socket 0
  closed := []
  out := []
  servers _ := SleepyServer.listening ClientId

section Steps

variable (s : State)

/-- The body of the second loop. -/
def readSocket
    (i : Fin N) :
    Answer → Option State
  | .error => some { s with pc := .read (i + 1), out := s.out ++ [.perror "read"] }
  | .ok count =>
      match SleepyServer.read (s.servers i) .self bufSize count with
      | none => none
      | some (.wouldBlock, _) => none
      | some (.bytes _, server) =>
          some { s with
            pc := .read (i + 1)
            servers := Function.update s.servers i server
            out := s.out ++ [.bytesRead i] }
      | some (.endOfFile, server) =>
          some { s with
            pc := .read (i + 1)
            servers := Function.update s.servers i server
            closed := s.closed ++ [i]
            out := s.out ++ [.eof] }

/-- One step of `main`. -/
def clientNext
    (answer : Answer) :
    Option State :=
  match s.pc with
  | .socket i =>
      if i < N then
        match answer with
        | .ok _ => some { s with pc := .connect i }
        | .error => some { s with pc := .exited 1, out := s.out ++ [.perror "socket"] }
      else some { s with pc := .read 0 }
  | .connect i =>
      if h : i < N then
        match answer with
        | .ok _ =>
            (SleepyServer.connect (s.servers ⟨i, h⟩) .self).map fun server =>
              { s with
                pc := .print i
                servers := Function.update s.servers ⟨i, h⟩ server }
        | .error => some { s with pc := .exited 1, out := s.out ++ [.perror "connect"] }
      else none
  | .print i => some { s with pc := .socket (i + 1), out := s.out ++ [.connectionOk] }
  | .read i =>
      if h : i < N then readSocket s ⟨i, h⟩ answer else some { s with pc := .exited 0 }
  | .exited _ => none

def next :
    Label → Option State
  | .client answer => clientNext s answer
  | .server i label =>
      if Foreign label then
        (SleepyServer.next (s.servers i) label).map fun server =>
          { s with servers := Function.update s.servers i server }
      else none

end Steps

/-- The client and the two servers. -/
def system : TransitionSystem State Label :=
  .ofProgram (fun s => s = start) (fun _ _ => True) next

section Reading

variable {s t : State} {i : Fin N} {answer : Answer} {server : Server ClientId}

/-- The bytes that the client has read from a server. -/
def received
    (s : State)
    (i : Fin N) :
    List UInt8 :=
  ((s.servers i).streams .self).taken

/-- How many connections have been reported, in the first loop. -/
def Pc.connections : Pc → Option Nat
  | socket i | connect i | print i => some i
  | _ => none

/-- How many sockets have been read, in the second loop and behind it. -/
def Pc.reads : Pc → Option Nat
  | read i => some i
  | exited 0 => some N
  | _ => none

/-- The line about the socket `j` says whether it has brought bytes. -/
def Answered
    (s : State)
    (j : Nat)
    (hj : j < N)
    (line : Line) :
    Prop :=
  (line = .bytesRead j ∧ received s ⟨j, hj⟩ ≠ []) ∨
    (line = .perror "read" ∧ received s ⟨j, hj⟩ = [])

/-- One line for every socket that has been read, in the order of the sockets. -/
structure Lines
    (s : State)
    (n : Nat) :
    Prop where
  le : n ≤ N
  lines : ∃ lines : List Line, s.out = List.replicate N .connectionOk ++ lines ∧
    lines.length = n ∧
    ∀ j (hj : j < N) line, lines[j]? = some line → Answered s j hj line
  unread : ∀ j : Fin N, n ≤ j.val → received s j = []

structure Reading
    (s : State) :
    Prop where
  serving : ∀ i, SleepyServer.Serving (s.servers i)
  setup : ∀ n, s.pc.connections = some n →
    n ≤ N ∧ s.out = List.replicate n .connectionOk ∧ ∀ i, received s i = []
  range : ∀ n, s.pc = .print n → n < N
  reads : ∀ n, s.pc.reads = some n → Lines s n
  closed : s.closed = []

theorem reading_start :
    Reading start where
  serving := fun _ => SleepyServer.serving_listening ClientId
  setup := fun n hn => by
    cases hn
    exact ⟨Nat.zero_le _, rfl, fun _ => rfl⟩
  range := fun n hn => by cases hn
  reads := fun n hn => by cases hn
  closed := rfl

/-- The lines depend on what has been read and printed only. -/
theorem Lines.same
    {n : Nat}
    (h : Lines s n)
    (hout : t.out = s.out)
    (hreceived : ∀ i, received t i = received s i) :
    Lines t n := by
  obtain ⟨hle, ⟨lines, hlines, hlength, hanswered⟩, hunread⟩ := h
  refine ⟨hle, ⟨lines, hout.trans hlines, hlength, fun j hj line hline => ?_⟩,
    fun j hj => (hreceived j).trans (hunread j hj)⟩
  have hbefore := hanswered j hj line hline
  unfold Answered at hbefore ⊢
  rw [hreceived]
  exact hbefore

/-- One more socket has been read. -/
theorem Lines.read
    {n : Nat}
    (h : Lines s n)
    (hn : n < N)
    {line : Line}
    (hout : t.out = s.out ++ [line])
    (hothers : ∀ j : Fin N, j.val ≠ n → received t j = received s j)
    (hline : Answered t n hn line) :
    Lines t (n + 1) := by
  obtain ⟨hle, ⟨lines, hlines, hlength, hanswered⟩, hunread⟩ := h
  refine ⟨hn, ⟨lines ++ [line], ?_, ?_, fun j hj line' hline' => ?_⟩, fun j hj => ?_⟩
  · rw [hout, hlines, List.append_assoc]
  · rw [List.length_append, List.length_singleton, hlength]
  · by_cases hlt : j < n
    · rw [List.getElem?_append_left (by omega)] at hline'
      have hbefore := hanswered j hj line' hline'
      unfold Answered at hbefore ⊢
      rw [hothers ⟨j, hj⟩ (by dsimp only; omega)]
      exact hbefore
    · rw [List.getElem?_append_right (by omega), List.getElem?_singleton] at hline'
      split_ifs at hline' with hzero
      cases hline'
      have heq : j = n := by omega
      subst heq
      exact hline
  · rw [hothers j (by omega)]
    exact hunread j (by omega)

theorem received_update
    (ht : t.servers = Function.update s.servers i server)
    {j : Fin N}
    (h : j ≠ i ∨ (server.streams .self).taken = received s i) :
    received t j = received s j := by
  unfold received at h ⊢
  rw [ht]
  by_cases heq : j = i
  · subst heq
    rw [Function.update_self]
    exact h.resolve_left fun hne => hne rfl
  · rw [Function.update_of_ne heq]

/-- A step that only changes a server, and nothing of what the client has read. -/
theorem Reading.ofServer
    (h : Reading s)
    (hserving : SleepyServer.Serving server)
    (htaken : (server.streams .self).taken = received s i)
    {pc : Pc}
    (hconnections : pc.connections = s.pc.connections)
    (hreads : pc.reads = s.pc.reads)
    (hrange : ∀ n, pc = .print n → n < N) :
    Reading { s with pc := pc, servers := Function.update s.servers i server } where
  serving := (Function.forall_update_iff s.servers
    (fun _ server => SleepyServer.Serving server)).mpr ⟨hserving, fun j _ => h.serving j⟩
  setup n hn := by
    obtain ⟨hle, hout, hnothing⟩ := h.setup n (hconnections ▸ hn)
    exact ⟨hle, hout, fun j => (received_update rfl (Or.inr htaken)).trans (hnothing j)⟩
  range := hrange
  reads n hn := (h.reads n (hreads ▸ hn)).same rfl
    fun j => received_update rfl (Or.inr htaken)
  closed := h.closed

/-- A step of the client that reads nothing. -/
theorem Reading.goto
    (h : Reading s)
    {pc : Pc}
    {out : List Line}
    (hsetup : ∀ n, pc.connections = some n →
      n ≤ N ∧ out = List.replicate n .connectionOk ∧ ∀ i, received s i = [])
    (hrange : ∀ n, pc ≠ .print n)
    (hreads : ∀ n, pc.reads = some n → Lines { s with pc := pc, out := out } n) :
    Reading { s with pc := pc, out := out } where
  serving := h.serving
  setup := hsetup
  range n hn := absurd hn (hrange n)
  reads := hreads
  closed := h.closed

/-- The client reads a socket for the first time, so it is not told its end. -/
theorem Reading.readSocket
    (h : Reading s)
    (hpc : s.pc = .read i)
    (hnext : readSocket s i answer = some t) :
    Reading t := by
  have hlines : Lines s i := h.reads i (by rw [hpc]; rfl)
  have hunread : received s i = [] := hlines.unread i (Nat.le_refl _)
  cases answer with
  | error =>
      cases hnext
      refine h.goto (fun n hn => by cases hn) (by simp) (fun n hn => ?_)
      cases hn
      exact hlines.read i.isLt rfl (fun _ _ => rfl) (Or.inr ⟨rfl, hunread⟩)
  | ok count =>
      simp only [ReadSlow.readSocket] at hnext
      cases hread : SleepyServer.read (s.servers i) .self bufSize count with
      | none =>
          simp [hread] at hnext
      | some r =>
          obtain ⟨result, server⟩ := r
          rw [hread] at hnext
          have hserving := (h.serving i).read hread
          cases result with
          | wouldBlock =>
              cases hnext
          | bytes chunk =>
              cases hnext
              obtain ⟨⟨result', stream⟩, hstream, heq⟩ := Option.map_eq_some_iff.mp hread
              cases heq
              obtain ⟨hchunk, -, htaken, -⟩ := ByteStream.read_bytes hstream
              refine
                { serving := (Function.forall_update_iff s.servers
                    (fun _ server => SleepyServer.Serving server)).mpr
                    ⟨hserving, fun j _ => h.serving j⟩
                  setup := fun n hn => by cases hn
                  range := fun n hn => by cases hn
                  reads := fun n hn => ?_
                  closed := h.closed }
              cases hn
              refine hlines.read i.isLt rfl (fun j hj => ?_) (Or.inl ⟨rfl, ?_⟩)
              · exact received_update rfl (Or.inl fun heq => hj (congrArg Fin.val heq))
              · unfold received
                simp [htaken, hchunk]
          | endOfFile =>
              have hresp := (h.serving i).taken_eq_resp hread
              rw [received] at hunread
              rw [hunread] at hresp
              exact absurd hresp (by decide)

theorem Reading.clientNext
    (h : Reading s)
    (hnext : clientNext s answer = some t) :
    Reading t := by
  cases hpc : s.pc with
  | socket n =>
      simp only [ReadSlow.clientNext, hpc] at hnext
      obtain ⟨hle, hout, hnothing⟩ := h.setup n (by rw [hpc]; rfl)
      split_ifs at hnext with hn
      · cases answer with
        | ok count =>
            cases hnext
            exact h.goto (fun k hk => by cases hk; exact ⟨hle, hout, hnothing⟩)
              (by simp) (fun k hk => by cases hk)
        | error =>
            cases hnext
            exact h.goto (fun k hk => by cases hk) (by simp) (fun k hk => by cases hk)
      · cases hnext
        have hN : n = N := Nat.le_antisymm hle (Nat.le_of_not_lt hn)
        subst hN
        refine h.goto (fun k hk => by cases hk) (by simp) (fun k hk => ?_)
        cases hk
        exact ⟨Nat.zero_le _, ⟨[], by rw [List.append_nil]; exact hout, rfl,
          fun j hj line hline => by cases hline⟩, fun j _ => hnothing j⟩
  | connect n =>
      simp only [ReadSlow.clientNext, hpc] at hnext
      split_ifs at hnext with hn
      cases answer with
      | ok count =>
          obtain ⟨server, hconnect, rfl⟩ := Option.map_eq_some_iff.mp hnext
          have hserving := (h.serving ⟨n, hn⟩).connect hconnect
          simp only [SleepyServer.connect] at hconnect
          split_ifs at hconnect
          cases hconnect
          exact h.ofServer hserving rfl (by rw [hpc]; rfl) (by rw [hpc]; rfl)
            (fun k hk => by cases hk; exact hn)
      | error =>
          cases hnext
          exact h.goto (fun k hk => by cases hk) (by simp) (fun k hk => by cases hk)
  | print n =>
      simp only [ReadSlow.clientNext, hpc, Option.some.injEq] at hnext
      subst hnext
      obtain ⟨hle, hout, hnothing⟩ := h.setup n (by rw [hpc]; rfl)
      have hn := h.range n hpc
      refine h.goto (fun k hk => ?_) (by simp) (fun k hk => by cases hk)
      cases hk
      exact ⟨hn, by rw [hout, List.replicate_succ'], hnothing⟩
  | read n =>
      simp only [ReadSlow.clientNext, hpc] at hnext
      split_ifs at hnext with hn
      · exact h.readSocket hpc hnext
      · cases hnext
        have hlines := h.reads n (by rw [hpc]; rfl)
        have hN : n = N := Nat.le_antisymm hlines.le (Nat.le_of_not_lt hn)
        subst hN
        refine h.goto (fun k hk => by cases hk) (by simp) (fun k hk => ?_)
        cases hk
        exact hlines.same rfl fun _ => rfl
  | exited status =>
      simp [ReadSlow.clientNext, hpc] at hnext

theorem reading_reachable
    (h : system.Reachable s) :
    Reading s := by
  refine h.invariant ?_ ?_
  · rintro s rfl
    exact reading_start
  · rintro s label t hs ⟨-, hnext⟩
    cases label with
    | client answer =>
        exact hs.clientNext hnext
    | server i label =>
        simp only [next] at hnext
        split_ifs at hnext with hforeign
        obtain ⟨server, hserver, rfl⟩ := Option.map_eq_some_iff.mp hnext
        obtain ⟨htaken, -⟩ := foreign_next hforeign hserver
        exact hs.ofServer ((hs.serving i).next hserver) htaken rfl rfl hs.range

/-- The client goes on with the socket it reads exactly when bytes have arrived there. -/
theorem Reading.exists_step_iff
    (h : Reading s)
    (hpc : s.pc = .read i) :
    (∃ count t, next s (.client (.ok count)) = some t) ↔
      ((s.servers i).streams .self).arrived ≠ [] := by
  have hstep : ∀ count,
      next s (.client (.ok count)) = ReadSlow.readSocket s i (.ok count) := by
    intro count
    simp only [next, ReadSlow.clientNext, hpc, dif_pos i.isLt]
  constructor
  · rintro ⟨count, t, hnext⟩ hempty
    rw [hstep, ReadSlow.readSocket] at hnext
    cases hread : SleepyServer.read (s.servers i) .self bufSize count with
    | none =>
        simp [hread] at hnext
    | some r =>
        obtain ⟨⟨result, stream⟩, hstream, rfl⟩ := Option.map_eq_some_iff.mp hread
        cases result with
        | wouldBlock =>
            simp [hread] at hnext
        | bytes chunk =>
            rw [ByteStream.read_of_empty hempty] at hstream
            split_ifs at hstream <;> cases hstream
        | endOfFile =>
            have hresp := (h.serving i).taken_eq_resp hread
            have hunread := (h.reads i (by rw [hpc]; rfl)).unread i (Nat.le_refl _)
            rw [received, hresp] at hunread
            exact absurd hunread (by decide)
  · intro hsome
    have hlength := List.length_pos_iff.mpr hsome
    refine ⟨1, ?_⟩
    rw [hstep]
    simp only [ReadSlow.readSocket, SleepyServer.read]
    rw [ByteStream.read, if_neg hsome, if_pos ⟨Nat.le_refl 1, by decide, hlength⟩]
    exact ⟨_, rfl⟩

/-- The client reads each socket once, in the order of the sockets and whoever answers
first: it prints one line for each, never that a stream has ended, and waits for the
socket it reads until bytes have arrived on that one. It closes no socket. -/
theorem reads_in_order
    (s : State)
    (h : system.Reachable s) :
    s.closed = [] ∧ (∀ n, s.pc.reads = some n → Lines s n) ∧
    ∀ i : Fin N, s.pc = .read i →
      ((∃ count t, next s (.client (.ok count)) = some t) ↔
        ((s.servers i).streams .self).arrived ≠ []) := by
  have hreading := reading_reachable h
  exact ⟨hreading.closed, hreading.reads, fun i hpc => hreading.exists_step_iff hpc⟩

/-- The response of the second server has arrived, that of the first one has not. -/
def secondFirst : List Label :=
  List.replicate 7 (.client (.ok 0)) ++ List.replicate 6 (.server second (.serve false)) ++
    [.server second (.arrive .self 23), .server second (.arrive .self 0)]

theorem reads_in_order_secondFirst :
    ∃ s : State, ((s.servers second).streams .self).arrived = SleepyServer.resp ∧
      ¬ ∃ count t, next s (.client (.ok count)) = some t := by
  have hstart : system.Reachable start :=
    TransitionSystem.Reachable.init rfl
  have hrun :=
    TransitionSystem.exists_reachable_of_exec
      secondFirst
      (fun s : State => decide (s.pc = .read 0 ∧
        ((s.servers first).streams .self).arrived = [] ∧
        ((s.servers second).streams .self).arrived = SleepyServer.resp))
      hstart
      (by decide +kernel)
      (by decide +kernel)
  obtain ⟨s, hs, htest⟩ := hrun
  obtain ⟨hpc, hempty, hsecond⟩ := of_decide_eq_true htest
  refine ⟨s, hsecond, fun hstep => ?_⟩
  exact ((reads_in_order s hs).2.2 first hpc).mp hstep hempty

end Reading

end ReadSlow
end Networking
end OsSeminars
