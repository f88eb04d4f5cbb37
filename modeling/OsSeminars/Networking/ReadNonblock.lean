import OsSeminars.Networking.SleepyServer
import Mathlib.Data.Fintype.Basic
import Mathlib.Data.Finset.Card

/-!
# `read-nonblock.c`: two servers polled by one client

The client connects to two servers and reads from both sockets in turns, without ever
sleeping in a read, until both servers have ended their streams. The servers are those
of `sleepy-server.c`, which serve other clients as well.

A label says which party moves and what its calls do: a read may be interrupted or fail
at any time, and otherwise it returns some of the bytes that have arrived, nothing at
the end of the stream, or `EAGAIN`.
-/

namespace OsSeminars
namespace Networking
namespace ReadNonblock

open Foundation
open SleepyServer (Server)

def N : Nat := 2

def bufSize : Nat := 4096

/-- The clients of a server: this program and others. -/
inductive ClientId
  | self
  | other (n : Nat)
  deriving DecidableEq

/-- An element of `input_fds`, which is not initialised at first and `-1` at last. -/
inductive InputFd
  | unset
  | socket
  | minusOne
  deriving DecidableEq

/-- A line of output; `perror` writes to the standard error. -/
inductive Line
  /-- `connection ok` -/
  | connectionOk
  /-- `bytes read from fd=%ld` with the index of the socket -/
  | bytesRead (i : Fin N)
  /-- `eof fd=%ld` with the index of the socket -/
  | eof (i : Fin N)
  | perror (call : String)
  deriving DecidableEq

/-- The socket that the line is about. -/
def Line.about : Line → Option (Fin N)
  | bytesRead i | eof i => some i
  | connectionOk | perror _ => none

/-- `main`: the calls of the first loop, the condition of the second one and the loop
inside of it. -/
inductive Pc
  | socket (i : Nat)
  | connect (i : Nat)
  | fcntl (i : Nat)
  | whileOpen
  | forRead (i : Nat)
  | exited (status : Nat)
  deriving DecidableEq

structure State where
  pc : Pc
  inputFds : Fin N → InputFd
  /-- the variable `open` -/
  openCount : Int
  out : List Line
  /-- what the reads of each socket have brought, one list for each -/
  chunks : Fin N → List (List UInt8)
  servers : Fin N → Server ClientId

/-- What a call of the client does; a read returns `count` bytes if there are any. -/
inductive Answer
  | ok (count : Nat)
  | interrupted
  | error
  deriving DecidableEq

inductive Label
  | client (answer : Answer)
  | server (i : Fin N) (label : SleepyServer.Label ClientId)
  deriving DecidableEq

def start : State where
  pc := .socket 0
  inputFds _ := .unset
  openCount := 0
  out := []
  chunks _ := []
  servers _ := SleepyServer.listening ClientId

/-- The part of another party: it neither connects nor reads for the client. -/
def Foreign : SleepyServer.Label ClientId → Prop
  | .connect c | .read c _ _ => c ≠ .self
  | .serve _ | .arrive _ _ => True

instance : (label : SleepyServer.Label ClientId) → Decidable (Foreign label)
  | .connect _ | .read _ _ _ => inferInstanceAs (Decidable (_ ≠ _))
  | .serve _ | .arrive _ _ => inferInstanceAs (Decidable True)

section Steps

variable (s : State)

/-- The element `i` of `input_fds` is read, and the result of the read handled. -/
def readSocket
    (i : Fin N) :
    Answer → Option State
  | .interrupted => some { s with pc := .forRead (i + 1) }
  | .error =>
      some { s with pc := .forRead (i + 1), out := s.out ++ [.perror "read"] }
  | .ok count =>
      match SleepyServer.read (s.servers i) .self bufSize count with
      | none => none
      | some (.wouldBlock, server) =>
          some { s with
            pc := .forRead (i + 1)
            servers := Function.update s.servers i server }
      | some (.bytes chunk, server) =>
          some { s with
            pc := .forRead (i + 1)
            servers := Function.update s.servers i server
            chunks := Function.update s.chunks i (s.chunks i ++ [chunk])
            out := s.out ++ [.bytesRead i] }
      | some (.endOfFile, server) =>
          some { s with
            pc := .forRead (i + 1)
            servers := Function.update s.servers i server
            openCount := s.openCount - 1
            inputFds := Function.update s.inputFds i .minusOne
            out := s.out ++ [.eof i] }

/-- One step of `main`. -/
def clientNext
    (answer : Answer) :
    Option State :=
  match s.pc with
  | .socket i =>
      if h : i < N then
        match answer with
        | .ok _ =>
            some { s with
              pc := .connect i
              inputFds := Function.update s.inputFds ⟨i, h⟩ .socket }
        | _ =>
            some { s with
              pc := .exited 1
              inputFds := Function.update s.inputFds ⟨i, h⟩ .minusOne
              out := s.out ++ [.perror "socket"] }
      else some { s with pc := .whileOpen, openCount := N }
  | .connect i =>
      if h : i < N then
        match answer with
        | .ok _ =>
            (SleepyServer.connect (s.servers ⟨i, h⟩) .self).map fun server =>
              { s with
                pc := .fcntl i
                servers := Function.update s.servers ⟨i, h⟩ server }
        | _ => some { s with pc := .exited 1, out := s.out ++ [.perror "connect"] }
      else none
  | .fcntl i => some { s with pc := .socket (i + 1), out := s.out ++ [.connectionOk] }
  | .whileOpen =>
      some { s with pc := if s.openCount > 0 then .forRead 0 else .exited 0 }
  | .forRead i =>
      if h : i < N then
        match s.inputFds ⟨i, h⟩ with
        | .minusOne => some { s with pc := .forRead (i + 1) }
        | .socket => readSocket s ⟨i, h⟩ answer
        | .unset => none
      else some { s with pc := .whileOpen }
  | .exited _ => none

def next :
    Label → Option State
  | .client answer => clientNext s answer
  | .server i label =>
      if Foreign label then
        (SleepyServer.next (s.servers i) label).map fun server =>
          { s with servers := Function.update s.servers i server }
      else none

end Steps

/-- The client and the two servers. -/
def system : TransitionSystem State Label :=
  .ofProgram (fun s => s = start) (fun _ _ => True) next

section Polling

variable {s t : State} {i : Fin N} {answer : Answer}

/-- The second loop. -/
def Pc.InLoop : Pc → Prop
  | whileOpen | forRead _ => True
  | _ => False

/-- The second loop, or the return behind it. -/
def Pc.Polls : Pc → Prop
  | whileOpen | forRead _ | exited 0 => True
  | _ => False

/-- How many sockets the first loop has created. -/
def Pc.opened : Pc → Nat
  | socket i => i
  | connect i | fcntl i => i + 1
  | _ => 0

/-- How many sockets have been connected. -/
def Pc.connected : Pc → Nat
  | socket i | connect i => i
  | fcntl i => i + 1
  | whileOpen | forRead _ => N
  | exited _ => 0

/-- The bytes that the client has read from a server. -/
def received
    (s : State)
    (i : Fin N) :
    List UInt8 :=
  ((s.servers i).streams .self).taken

/-- The sockets that are open. -/
def openSockets
    (inputFds : Fin N → InputFd) :
    Finset (Fin N) :=
  Finset.univ.filter fun i => inputFds i = .socket

/-- A socket is closed. -/
theorem card_openSockets_close
    {inputFds : Fin N → InputFd}
    (hopen : inputFds i = .socket) :
    (openSockets (Function.update inputFds i .minusOne)).card + 1 =
      (openSockets inputFds).card := by
  have herase : openSockets (Function.update inputFds i .minusOne) =
      (openSockets inputFds).erase i := by
    ext j
    by_cases heq : j = i
    · subst heq
      simp [openSockets]
    · simp [openSockets, heq]
  have hmem : i ∈ openSockets inputFds := by
    simp [openSockets, hopen]
  rw [herase, Finset.card_erase_add_one hmem]

/-- The lines about one of the sockets. -/
def linesAbout
    (i : Fin N)
    (out : List Line) :
    List Line :=
  out.filter fun line => line.about = some i

/-- What the client has printed about a socket agrees with what it has read there. -/
structure Reported
    (s : State)
    (i : Fin N) :
    Prop where
  lines : linesAbout i s.out =
    List.replicate (s.chunks i).length (.bytesRead i) ++
      (if .eof i ∈ s.out then [.eof i] else [])
  chunks : (s.chunks i).flatten = received s i ∧ [] ∉ s.chunks i
  complete : .eof i ∈ s.out → received s i = SleepyServer.resp

/-- What holds at every point of the client. -/
structure Polling
    (s : State) :
    Prop where
  serving : ∀ i, SleepyServer.Serving (s.servers i)
  opened : ∀ i : Fin N, i.val < s.pc.opened → s.inputFds i = .socket
  connected : ∀ i : Fin N, i.val < s.pc.connected → .self ∈ (s.servers i).connected
  quiet : ¬ s.pc.Polls → ∀ i, Line.eof i ∉ s.out
  closed : s.pc.Polls →
    ∀ i, s.inputFds i = if Line.eof i ∈ s.out then .minusOne else .socket
  counted : s.pc.InLoop → s.openCount = (openSockets s.inputFds).card
  finished : s.pc = .exited 0 → ∀ i, Line.eof i ∈ s.out
  reported : ∀ i, Reported s i

theorem polling_start :
    Polling start where
  serving := fun _ => SleepyServer.serving_listening ClientId
  opened := fun i hi => absurd hi (Nat.not_lt_zero _)
  connected := fun i hi => absurd hi (Nat.not_lt_zero _)
  quiet := fun _ i hi => by cases hi
  closed := fun hpolls => hpolls.elim
  counted := fun hloop => hloop.elim
  finished := fun hpc => by cases hpc
  reported := fun i =>
    { lines := rfl
      chunks := ⟨rfl, List.not_mem_nil⟩
      complete := fun hi => by cases hi }

theorem linesAbout_append
    (i : Fin N)
    (out out' : List Line) :
    linesAbout i (out ++ out') = linesAbout i out ++ linesAbout i out' :=
  List.filter_append out out'

/-- A line that is not about a socket changes nothing that is printed about it. -/
theorem Reported.other
    (h : Reported s i)
    {line : Line}
    (hline : line.about ≠ some i)
    (hout : t.out = s.out ++ [line])
    (hchunks : t.chunks i = s.chunks i)
    (hreceived : received t i = received s i) :
    Reported t i := by
  have hlines : linesAbout i t.out = linesAbout i s.out := by
    rw [hout, linesAbout_append]
    simp [linesAbout, hline]
  have heof : Line.eof i ∈ t.out ↔ Line.eof i ∈ s.out := by
    have hne : Line.eof i ≠ line := by
      rintro rfl
      exact hline rfl
    rw [hout, List.mem_append, List.mem_singleton]
    exact or_iff_left hne
  refine ⟨?_, ?_, fun hmem => by rw [hreceived]; exact h.complete (heof.mp hmem)⟩
  · simp only [hlines, heof, hchunks]
    exact h.lines
  · rw [hchunks, hreceived]
    exact h.chunks

/-- Nothing is printed and nothing is read. -/
theorem Reported.same
    (h : Reported s i)
    (hout : t.out = s.out)
    (hchunks : t.chunks i = s.chunks i)
    (hreceived : received t i = received s i) :
    Reported t i := by
  refine ⟨?_, ?_, fun hmem => ?_⟩
  · rw [hout, hchunks]
    exact h.lines
  · rw [hchunks, hreceived]
    exact h.chunks
  · rw [hreceived]
    rw [hout] at hmem
    exact h.complete hmem

/-- Bytes have been read from an open socket. -/
theorem Reported.bytes
    (h : Reported s i)
    (hopen : Line.eof i ∉ s.out)
    {chunk : List UInt8}
    (hchunk : chunk ≠ [])
    (hout : t.out = s.out ++ [.bytesRead i])
    (hchunks : t.chunks i = s.chunks i ++ [chunk])
    (hreceived : received t i = received s i ++ chunk) :
    Reported t i := by
  have heof : Line.eof i ∉ t.out := by
    rw [hout, List.mem_append, List.mem_singleton]
    rintro (hmem | hmem)
    · exact hopen hmem
    · cases hmem
  refine ⟨?_, ⟨?_, ?_⟩, fun hmem => absurd hmem heof⟩
  · rw [hout, linesAbout_append, h.lines, if_neg hopen, if_neg (hout ▸ heof), List.append_nil,
      List.append_nil, hchunks, List.length_append, List.length_singleton,
      List.replicate_succ']
    simp [linesAbout, Line.about]
  · rw [hchunks, List.flatten_append, List.flatten_singleton, h.chunks.1, hreceived]
  · rw [hchunks, List.mem_append, List.mem_singleton]
    exact not_or_intro h.chunks.2 hchunk.symm

/-- The end of the stream has been read from an open socket. -/
theorem Reported.eof
    (h : Reported s i)
    (hopen : Line.eof i ∉ s.out)
    (hout : t.out = s.out ++ [.eof i])
    (hchunks : t.chunks i = s.chunks i)
    (hreceived : received t i = received s i)
    (hcomplete : received s i = SleepyServer.resp) :
    Reported t i := by
  have heof : Line.eof i ∈ t.out := by
    rw [hout]
    exact List.mem_append_right _ (List.mem_singleton_self _)
  refine ⟨?_, ?_, fun _ => by rw [hreceived]; exact hcomplete⟩
  · rw [if_pos heof, hout, linesAbout_append, h.lines, if_neg hopen, List.append_nil, hchunks]
    simp [linesAbout, Line.about]
  · rw [hchunks, hreceived]
    exact h.chunks

/-- A change of one stream that keeps what has been read keeps that of all streams. -/
theorem taken_update
    {streams : ClientId → ByteStream}
    {c : ClientId}
    {stream : ByteStream}
    (h : stream.taken = (streams c).taken)
    (c' : ClientId) :
    (Function.update streams c stream c').taken = (streams c').taken := by
  by_cases heq : c' = c
  · subst heq
    rw [Function.update_self, h]
  · rw [Function.update_of_ne heq]

/-- A step of another party leaves what the client has read. -/
theorem foreign_next
    {server server' : Server ClientId}
    {label : SleepyServer.Label ClientId}
    (hforeign : Foreign label)
    (hnext : SleepyServer.next server label = some server') :
    (server'.streams .self).taken = (server.streams .self).taken ∧
      server.connected ⊆ server'.connected := by
  cases label with
  | connect c =>
      simp only [SleepyServer.next, SleepyServer.connect] at hnext
      split_ifs at hnext
      cases hnext
      exact ⟨rfl, List.subset_append_left _ _⟩
  | serve fails =>
      simp only [SleepyServer.next] at hnext
      cases hpc : server.pc with
      | accept =>
          simp only [SleepyServer.serve, hpc] at hnext
          split_ifs at hnext
          · cases hnext
            exact ⟨rfl, List.Subset.refl _⟩
          · cases hbacklog : server.backlog <;> rw [hbacklog] at hnext <;> cases hnext
            exact ⟨rfl, List.Subset.refl _⟩
      | write c =>
          simp only [SleepyServer.serve, hpc, Option.some.injEq] at hnext
          subst hnext
          exact ⟨taken_update (ByteStream.taken_send _ _) .self, List.Subset.refl _⟩
      | shutdown c =>
          simp only [SleepyServer.serve, hpc, Option.some.injEq] at hnext
          subst hnext
          exact ⟨taken_update (ByteStream.taken_finish _) .self, List.Subset.refl _⟩
      | _ =>
          simp only [SleepyServer.serve, hpc, Option.some.injEq] at hnext
          subst hnext
          exact ⟨rfl, List.Subset.refl _⟩
  | arrive c count =>
      obtain ⟨stream, harrive, rfl⟩ := Option.map_eq_some_iff.mp hnext
      exact ⟨taken_update (ByteStream.arrive_eq_some harrive).1 .self, List.Subset.refl _⟩
  | read c size count =>
      obtain ⟨⟨result, server''⟩, hread, rfl⟩ := Option.map_eq_some_iff.mp hnext
      obtain ⟨⟨result', stream⟩, -, heq⟩ := Option.map_eq_some_iff.mp hread
      cases heq
      have hne : ClientId.self ≠ c := fun heq => hforeign heq.symm
      refine ⟨?_, List.Subset.refl _⟩
      dsimp only
      rw [Function.update_of_ne hne]

/-- What another party does at one of the servers. -/
theorem Polling.server
    (h : Polling s)
    {server : Server ClientId}
    {label : SleepyServer.Label ClientId}
    (hforeign : Foreign label)
    (hnext : SleepyServer.next (s.servers i) label = some server) :
    Polling { s with servers := Function.update s.servers i server } := by
  obtain ⟨htaken, hconnected⟩ := foreign_next hforeign hnext
  have hreceived : ∀ j,
      received { s with servers := Function.update s.servers i server } j = received s j := by
    intro j
    unfold received
    dsimp only
    by_cases heq : j = i
    · subst heq
      rw [Function.update_self, htaken]
    · rw [Function.update_of_ne heq]
  exact
    { serving := (Function.forall_update_iff s.servers
        (fun _ server => SleepyServer.Serving server)).mpr
        ⟨(h.serving i).next hnext, fun j _ => h.serving j⟩
      opened := h.opened
      connected := (Function.forall_update_iff s.servers
        (fun j server => j.val < s.pc.connected → ClientId.self ∈ server.connected)).mpr
        ⟨fun hi => hconnected (h.connected i hi), fun j _ => h.connected j⟩
      quiet := h.quiet
      closed := h.closed
      counted := h.counted
      finished := h.finished
      reported := fun j => (h.reported j).same rfl rfl (hreceived j) }

/-- A step of the client to another point, with at most a line that is about no
socket. -/
theorem Polling.goto
    (h : Polling s)
    {pc : Pc}
    {inputFds : Fin N → InputFd}
    {openCount : Int}
    {out : List Line}
    (hout : out = s.out ∨ ∃ line, line.about = none ∧ out = s.out ++ [line])
    (hopened : ∀ i : Fin N, i.val < pc.opened → inputFds i = .socket)
    (hconnected : pc.connected ≤ s.pc.connected)
    (hpolls : pc.Polls → s.pc.Polls ∧ inputFds = s.inputFds ∨
      (¬ s.pc.Polls ∧ ∀ i, inputFds i = .socket))
    (hquiet : ¬ pc.Polls → ¬ s.pc.Polls)
    (hcounted : pc.InLoop → openCount = (openSockets inputFds).card)
    (hfinished : pc = .exited 0 → ∀ i, Line.eof i ∈ s.out) :
    Polling { s with pc := pc, inputFds := inputFds, openCount := openCount, out := out } := by
  have heof : ∀ i, Line.eof i ∈ out ↔ Line.eof i ∈ s.out := by
    intro i
    rcases hout with rfl | ⟨line, hline, rfl⟩
    · exact Iff.rfl
    · rw [List.mem_append, List.mem_singleton]
      refine or_iff_left ?_
      rintro rfl
      cases hline
  refine
    { serving := h.serving
      opened := hopened
      connected := fun i hi => h.connected i (Nat.lt_of_lt_of_le hi hconnected)
      quiet := fun hpc i => ?_
      closed := fun hpc i => ?_
      counted := hcounted
      finished := fun hpc i => (heof i).mpr (hfinished hpc i)
      reported := fun i => ?_ }
  · exact (heof i).not.mpr (h.quiet (hquiet hpc) i)
  · simp only [heof i]
    rcases hpolls hpc with ⟨hbefore, hsame⟩ | ⟨hbefore, hall⟩
    · rw [hsame]
      exact h.closed hbefore i
    · rw [hall i, if_neg (h.quiet hbefore i)]
  · rcases hout with rfl | ⟨line, hline, rfl⟩
    · exact (h.reported i).same rfl rfl rfl
    · exact (h.reported i).other (by rw [hline]; exact (Option.some_ne_none i).symm) rfl rfl rfl

/-- The client is in its second loop and has read a socket. -/
theorem Polling.read
    (h : Polling s)
    {n : Nat}
    (hpc : s.pc.InLoop)
    {server : Server ClientId}
    {inputFds : Fin N → InputFd}
    {openCount : Int}
    {out : List Line}
    {chunks : Fin N → List (List UInt8)}
    (hserving : SleepyServer.Serving server)
    (hconnected : (s.servers i).connected ⊆ server.connected)
    (hchunks : ∀ j, j ≠ i → chunks j = s.chunks j)
    (hreported : ∀ t : State, t.out = out → t.chunks i = chunks i →
      received t i = (server.streams .self).taken → Reported t i)
    (hout : out = s.out ∨ ∃ line, line.about = some i ∧ out = s.out ++ [line])
    (hclosed : ∀ j, inputFds j = if Line.eof j ∈ out then .minusOne else .socket)
    (hcounted : openCount = (openSockets inputFds).card) :
    Polling
      { s with
        pc := .forRead n
        servers := Function.update s.servers i server
        inputFds := inputFds
        openCount := openCount
        chunks := chunks
        out := out } := by
  have hready : s.pc.connected = N := by
    cases hs : s.pc with
    | whileOpen | forRead i =>
        rfl
    | _ =>
        rw [hs] at hpc
        exact hpc.elim
  refine
    { serving := (Function.forall_update_iff s.servers
        (fun _ server => SleepyServer.Serving server)).mpr
        ⟨hserving, fun j _ => h.serving j⟩
      opened := fun j hj => absurd hj (Nat.not_lt_zero _)
      connected := (Function.forall_update_iff s.servers
        (fun j server => j.val < N → ClientId.self ∈ server.connected)).mpr
        ⟨fun hi => hconnected (h.connected i (by rw [hready]; exact hi)),
          fun j _ hj => h.connected j (by rw [hready]; exact hj)⟩
      quiet := fun hquiet => absurd trivial hquiet
      closed := fun _ => hclosed
      counted := fun _ => hcounted
      finished := fun hfinished => by cases hfinished
      reported := fun j => ?_ }
  by_cases heq : j = i
  · subst heq
    refine hreported _ rfl rfl ?_
    unfold received
    dsimp only
    rw [Function.update_self]
  · have hreceived : received
        { s with
          pc := .forRead n
          servers := Function.update s.servers i server
          inputFds := inputFds
          openCount := openCount
          chunks := chunks
          out := out } j = received s j := by
      unfold received
      dsimp only
      rw [Function.update_of_ne heq]
    rcases hout with rfl | ⟨line, hline, rfl⟩
    · exact (h.reported j).same rfl (hchunks j heq) hreceived
    · refine (h.reported j).other ?_ rfl (hchunks j heq) hreceived
      rw [hline]
      exact fun hsome => heq (Option.some.inj hsome).symm

theorem Polling.readSocket
    (h : Polling s)
    {n : Nat}
    (hpc : s.pc = .forRead n)
    (hopen : s.inputFds i = .socket)
    (hnext : readSocket s i answer = some t) :
    Polling t := by
  have hloop : s.pc.InLoop := by
    rw [hpc]
    trivial
  have hpolls : s.pc.Polls := by
    rw [hpc]
    trivial
  have hclosed := h.closed hpolls
  have hcounted := h.counted hloop
  have hnot : Line.eof i ∉ s.out := by
    intro hmem
    have hfd := hclosed i
    rw [if_pos hmem, hopen] at hfd
    cases hfd
  have hgoto : ∀ {out}, (out = s.out ∨ ∃ line : Line, line.about = none ∧ out = s.out ++ [line]) →
      Polling { s with pc := .forRead (i + 1), out := out } := by
    intro out hout
    exact h.goto hout (fun j hj => absurd hj (Nat.not_lt_zero _))
      (by rw [hpc]; exact Nat.le_refl _)
      (fun _ => Or.inl ⟨hpolls, rfl⟩) (fun hquiet => absurd trivial hquiet) (fun _ => hcounted)
      (fun hfinished => by cases hfinished)
  cases answer with
  | interrupted =>
      cases hnext
      exact hgoto (Or.inl rfl)
  | error =>
      cases hnext
      exact hgoto (Or.inr ⟨_, rfl, rfl⟩)
  | ok count =>
      simp only [ReadNonblock.readSocket] at hnext
      cases hread : SleepyServer.read (s.servers i) .self bufSize count with
      | none =>
          simp [hread] at hnext
      | some r =>
          obtain ⟨result, server⟩ := r
          rw [hread] at hnext
          have hserving := (h.serving i).read hread
          obtain ⟨⟨result', stream⟩, hstream, heq⟩ := Option.map_eq_some_iff.mp hread
          cases heq
          cases result' with
          | wouldBlock =>
              cases hnext
              obtain ⟨rfl, -, -⟩ := ByteStream.read_wouldBlock hstream
              refine h.read hloop hserving (List.Subset.refl _) (fun _ _ => rfl)
                (fun t hout hchunks hreceived => ?_) (Or.inl rfl) hclosed hcounted
              refine (h.reported i).same hout hchunks ?_
              rw [hreceived]
              simp [received]
          | bytes chunk =>
              cases hnext
              obtain ⟨hchunk, -, htaken, -⟩ := ByteStream.read_bytes hstream
              refine h.read hloop hserving (List.Subset.refl _)
                (fun j hj => Function.update_of_ne hj ..)
                (fun t hout hchunks hreceived => ?_) (Or.inr ⟨_, rfl, rfl⟩) (fun j => ?_) hcounted
              · rw [Function.update_self] at hchunks
                refine (h.reported i).bytes hnot hchunk hout hchunks ?_
                rw [hreceived]
                simp [received, htaken]
              · rw [hclosed j]
                simp
          | endOfFile =>
              cases hnext
              have hresp := (h.serving i).taken_eq_resp hread
              obtain ⟨rfl, -, -⟩ := ByteStream.read_endOfFile hstream
              refine h.read hloop hserving (List.Subset.refl _) (fun _ _ => rfl)
                (fun t hout hchunks hreceived => ?_) (Or.inr ⟨_, rfl, rfl⟩) (fun j => ?_) ?_
              · refine (h.reported i).eof hnot hout hchunks ?_ hresp
                rw [hreceived]
                simp [received]
              · by_cases heq : j = i
                · subst heq
                  simp
                · rw [Function.update_of_ne heq, hclosed j]
                  simp [heq]
              · rw [hcounted, ← card_openSockets_close hopen]
                omega

theorem Polling.connect
    (h : Polling s)
    {n : Nat}
    (hpc : s.pc = .connect n)
    (hn : n < N)
    {server : Server ClientId}
    (hconnect : SleepyServer.connect (s.servers ⟨n, hn⟩) .self = some server) :
    Polling
      { s with
        pc := .fcntl n
        servers := Function.update s.servers ⟨n, hn⟩ server } := by
  have hserving := (h.serving ⟨n, hn⟩).connect hconnect
  simp only [SleepyServer.connect] at hconnect
  split_ifs at hconnect
  cases hconnect
  have hopened := h.opened
  have hconnected := h.connected
  rw [hpc] at hopened hconnected
  refine
    { serving := (Function.forall_update_iff s.servers
        (fun _ server => SleepyServer.Serving server)).mpr
        ⟨hserving, fun i _ => h.serving i⟩
      opened := hopened
      connected := (Function.forall_update_iff s.servers
        (fun i server => i.val < n + 1 → ClientId.self ∈ server.connected)).mpr
        ⟨fun _ => List.mem_append_right _ (List.mem_singleton_self _), fun i hne hi => ?_⟩
      quiet := fun _ => h.quiet (by rw [hpc]; exact id)
      closed := fun hpolls => hpolls.elim
      counted := fun hloop => hloop.elim
      finished := fun hfinished => by cases hfinished
      reported := fun i => (h.reported i).same rfl rfl ?_ }
  · refine hconnected i ?_
    have hval : i.val ≠ n := fun hval => hne (Fin.ext hval)
    simp only [Pc.connected]
    omega
  · unfold received
    dsimp only
    by_cases heq : i = ⟨n, hn⟩
    · rw [heq, Function.update_self]
    · rw [Function.update_of_ne heq]

theorem Polling.clientNext
    (h : Polling s)
    (hnext : clientNext s answer = some t) :
    Polling t := by
  cases hpc : s.pc with
  | socket n =>
      simp only [ReadNonblock.clientNext, hpc] at hnext
      have hquiet : ¬ s.pc.Polls := by
        rw [hpc]
        exact id
      have hopened := h.opened
      rw [hpc] at hopened
      split_ifs at hnext with hn
      · cases answer with
        | ok count =>
            cases hnext
            refine h.goto (Or.inl rfl) (fun i hi => ?_) (by rw [hpc]; exact Nat.le_refl _)
              (fun hpolls => hpolls.elim) (fun _ => hquiet) (fun hloop => hloop.elim)
              (fun hfinished => by cases hfinished)
            by_cases heq : i = ⟨n, hn⟩
            · rw [heq, Function.update_self]
            · rw [Function.update_of_ne heq]
              refine hopened i ?_
              have hne : i.val ≠ n := fun hval => heq (Fin.ext hval)
              simp only [Pc.opened] at hi ⊢
              omega
        | _ =>
            cases hnext
            exact h.goto (Or.inr ⟨_, rfl, rfl⟩) (fun i hi => absurd hi (Nat.not_lt_zero _))
              (Nat.zero_le _) (fun hpolls => hpolls.elim) (fun _ => hquiet)
              (fun hloop => hloop.elim) (fun hfinished => by cases hfinished)
      · cases hnext
        have hall : ∀ i, s.inputFds i = .socket :=
          fun i => hopened i (Nat.lt_of_lt_of_le i.isLt (Nat.le_of_not_lt hn))
        refine h.goto (Or.inl rfl) (fun i hi => absurd hi (Nat.not_lt_zero _)) ?_
          (fun _ => Or.inr ⟨hquiet, hall⟩) (fun _ => hquiet) (fun _ => ?_)
          (fun hfinished => by cases hfinished)
        · rw [hpc]
          exact Nat.le_of_not_lt hn
        · have huniv : openSockets s.inputFds = Finset.univ := by
            ext i
            simp [openSockets, hall i]
          rw [huniv]
          rfl
  | connect n =>
      simp only [ReadNonblock.clientNext, hpc] at hnext
      have hquiet : ¬ s.pc.Polls := by
        rw [hpc]
        exact id
      split_ifs at hnext with hn
      cases answer with
      | ok count =>
          obtain ⟨server, hconnect, rfl⟩ := Option.map_eq_some_iff.mp hnext
          exact h.connect hpc hn hconnect
      | _ =>
          cases hnext
          exact h.goto (Or.inr ⟨_, rfl, rfl⟩) (fun i hi => absurd hi (Nat.not_lt_zero _))
            (Nat.zero_le _) (fun hpolls => hpolls.elim) (fun _ => hquiet)
            (fun hloop => hloop.elim) (fun hfinished => by cases hfinished)
  | fcntl n =>
      simp only [ReadNonblock.clientNext, hpc, Option.some.injEq] at hnext
      subst hnext
      have hopened := h.opened
      rw [hpc] at hopened
      exact h.goto (Or.inr ⟨_, rfl, rfl⟩) hopened (by rw [hpc]; exact Nat.le_refl _)
        (fun hpolls => hpolls.elim) (fun _ => by rw [hpc]; exact id) (fun hloop => hloop.elim)
        (fun hfinished => by cases hfinished)
  | whileOpen =>
      simp only [ReadNonblock.clientNext, hpc, Option.some.injEq] at hnext
      subst hnext
      have hpolls : s.pc.Polls := by
        rw [hpc]
        trivial
      have hcounted := h.counted (by rw [hpc]; trivial)
      split_ifs with hopen
      · exact h.goto (Or.inl rfl) (fun i hi => absurd hi (Nat.not_lt_zero _))
          (by rw [hpc]; exact Nat.le_refl _) (fun _ => Or.inl ⟨hpolls, rfl⟩)
          (fun hquiet => absurd trivial hquiet) (fun _ => hcounted)
          (fun hfinished => by cases hfinished)
      · refine h.goto (Or.inl rfl) (fun i hi => absurd hi (Nat.not_lt_zero _))
          (Nat.zero_le _) (fun _ => Or.inl ⟨hpolls, rfl⟩)
          (fun hquiet => absurd trivial hquiet) (fun hloop => hloop.elim) (fun _ i => ?_)
        have hnone : openSockets s.inputFds = ∅ := by
          rw [hcounted] at hopen
          exact Finset.card_eq_zero.mp (by omega)
        by_contra heof
        have hfd := h.closed hpolls i
        rw [if_neg heof] at hfd
        have hmem : i ∈ openSockets s.inputFds := by
          simp [openSockets, hfd]
        rw [hnone] at hmem
        cases hmem
  | forRead n =>
      simp only [ReadNonblock.clientNext, hpc] at hnext
      have hpolls : s.pc.Polls := by
        rw [hpc]
        trivial
      have hcounted := h.counted (by rw [hpc]; trivial)
      have hgoto : ∀ pc : Pc, pc.InLoop → Polling { s with pc := pc } := by
        intro pc hloop
        refine h.goto (Or.inl rfl) ?_ ?_ (fun _ => Or.inl ⟨hpolls, rfl⟩) ?_ (fun _ => hcounted) ?_
        · cases pc <;> first | exact hloop.elim | exact fun i hi => absurd hi (Nat.not_lt_zero _)
        · cases pc <;> first | exact hloop.elim | (rw [hpc]; exact Nat.le_refl _)
        · cases pc <;> first | exact hloop.elim | exact fun hquiet => absurd trivial hquiet
        · rintro rfl
          exact hloop.elim
      split_ifs at hnext with hn
      · cases hfd : s.inputFds ⟨n, hn⟩ with
        | minusOne =>
            rw [hfd] at hnext
            cases hnext
            exact hgoto _ trivial
        | socket =>
            rw [hfd] at hnext
            exact h.readSocket hpc hfd hnext
        | unset =>
            simp [hfd] at hnext
      · cases hnext
        exact hgoto _ trivial
  | exited status =>
      simp [ReadNonblock.clientNext, hpc] at hnext

theorem polling_reachable
    (h : system.Reachable s) :
    Polling s := by
  refine h.invariant ?_ ?_
  · rintro s rfl
    exact polling_start
  · rintro s label t hs ⟨-, hnext⟩
    cases label with
    | client answer =>
        exact hs.clientNext hnext
    | server i label =>
        simp only [next] at hnext
        split_ifs at hnext with hforeign
        obtain ⟨server, hserver, rfl⟩ := Option.map_eq_some_iff.mp hnext
        exact hs.server hforeign hserver

/-- The client prints about each socket one line for every read that has brought bytes
and, behind all of them, at most one line about the end of the stream. What the reads have
brought is a prefix of the response. The client prints the last line only when it has read
the whole response, and it returns `0` only when it has printed it for both sockets. In
its loop it counts the sockets that are open. -/
theorem lines_of_reachable
    (s : State)
    (h : system.Reachable s) :
    (s.pc.InLoop → s.openCount = (openSockets s.inputFds).card) ∧
    ∀ i, linesAbout i s.out =
        List.replicate (s.chunks i).length (.bytesRead i) ++
          (if .eof i ∈ s.out then [.eof i] else []) ∧
      ((s.chunks i).flatten = received s i ∧ [] ∉ s.chunks i) ∧
      received s i <+: SleepyServer.resp ∧
      (.eof i ∈ s.out → received s i = SleepyServer.resp) ∧
      (s.pc = .exited 0 → .eof i ∈ s.out) := by
  have hpolling := polling_reachable h
  refine ⟨hpolling.counted, fun i => ⟨(hpolling.reported i).lines,
    (hpolling.reported i).chunks, ?_, (hpolling.reported i).complete,
    fun hpc => hpolling.finished hpc i⟩⟩
  exact (hpolling.serving i).taken_isPrefix .self

/-- The indices of the two sockets. -/
def first : Fin N := ⟨0, by decide⟩

def second : Fin N := ⟨1, by decide⟩

/-- Steps of the client with what its reads return. -/
def clientSteps
    (counts : List Nat) :
    List Label :=
  counts.map fun count => .client (.ok count)

/-- A server serves the client, and its response arrives. -/
def answering
    (i : Fin N) :
    List Label :=
  List.replicate 6 (.server i (.serve false)) ++
    [.server i (.arrive .self 23), .server i (.arrive .self 0)]

/-- The response of the second server is read in two parts. -/
def twoParts : List Label :=
  clientSteps (List.replicate 7 0) ++ answering first ++ answering second ++
    clientSteps [0, 23, 10, 0, 0, 0, 13, 0, 0, 0, 0, 0, 0]

theorem lines_of_reachable_twoParts :
    ∃ s : State, s.pc = .exited 0 ∧
      linesAbout second s.out = [.bytesRead second, .bytesRead second, .eof second] ∧
      received s second = SleepyServer.resp := by
  have hstart : system.Reachable start :=
    TransitionSystem.Reachable.init rfl
  have hrun :=
    TransitionSystem.exists_reachable_of_exec
      twoParts
      (fun s => decide (s.pc = .exited 0 ∧
        linesAbout second s.out = [.bytesRead second, .bytesRead second, .eof second]))
      hstart
      (by decide +kernel)
      (by decide +kernel)
  obtain ⟨s, hs, htest⟩ := hrun
  obtain ⟨hpc, hlines⟩ := of_decide_eq_true htest
  obtain ⟨-, -, -, hcomplete, hexited⟩ := (lines_of_reachable s hs).2 second
  exact ⟨s, hpc, hlines, hcomplete (hexited hpc)⟩

end Polling

end ReadNonblock
end Networking
end OsSeminars
