import OsSeminars.Foundation.Buffer
import OsSeminars.Foundation.CString
import OsSeminars.Foundation.Datagrams
import OsSeminars.Foundation.InetAddress
import OsSeminars.Foundation.TransitionSystem

/-!
# `udp/client.c` and `udp/server.c`: one datagram

The server binds a socket to a port that the system chooses, prints the port, receives
one datagram and prints it as a string, together with where it comes from. A client sends
`Hello` with the zero behind it to the address and the port in its arguments.

Any number of clients run with any arguments, and the network loses, duplicates and
delays datagrams. Somebody else may send datagrams to the server as well: these need not
contain a zero, and then the string goes on in what the buffer has held before, or behind
its end.

Ports are kept in network byte order, as in `sin_port`. `recvfrom` always stores an
address of the family `AF_INET` for a socket of this family.
-/

namespace OsSeminars
namespace Networking
namespace UdpHello

open Foundation
open CString (literal strlen)
open InetAddress (Address Port inetAddr inetNtoa htons)
open Numeral (atoi decimal)

universe u

/-- The fields `sin_addr` and `sin_port` of an address of a socket. -/
structure Endpoint where
  address : Address
  port : Port
deriving DecidableEq

structure Datagram where
  source : Endpoint
  target : Endpoint
  payload : List UInt8
deriving DecidableEq

/-- The `main` of the client; `returned` is its end without `exit`. -/
inductive ClientPc
  | checkArgs
  | socket
  | sendto
  | close
  | returned
  | exited (status : Nat)
  deriving DecidableEq

/-- The `main` of the server; in `overread` its `printf` has read behind the buffer. -/
inductive ServerPc
  | socket
  | bind
  | getsockname
  | printPort
  | recvfrom
  | printMessage
  | close
  | returned
  | exited (status : Nat)
  | overread
  deriving DecidableEq

/-- `char buf[32]` -/
abbrev MessageBuffer : Type :=
  Buffer UInt8 32

structure State (ι : Type u) where
  server : ServerPc
  /-- `server.sin_port` -/
  port : Port
  buf : MessageBuffer
  /-- the address that `recvfrom` has stored in `client` -/
  client : Endpoint
  printed : List (List UInt8)
  clients : ι → ClientPc
  /-- the datagrams on their way -/
  net : List Datagram
  /-- the datagrams that the clients have sent -/
  sent : List (ι × Datagram)
  /-- the datagrams that somebody else has sent -/
  foreign : List Datagram
  received : Option Datagram

/-- A label carries what the system chooses: whether a call succeeds, the port of the
server, the address from which a client sends, and the datagram that arrives. -/
inductive Label (ι : Type u)
  | server (succeeds : Bool)
  | bind (port : Port)
  | recvfrom (i : Nat)
  | client (id : ι) (succeeds : Bool)
  | sendto (id : ι) (source : Endpoint)
  | foreign (d : Datagram)
  | disturb (e : Disturbance)
  deriving DecidableEq

def start
    {ι : Type u}
    (buf : MessageBuffer)
    (client : Endpoint) :
    State ι where
  server := .socket
  port := 0
  buf := buf
  client := client
  printed := []
  clients _ := .checkArgs
  net := []
  sent := []
  foreign := []
  received := none

/-- `printf("Port assigned is %d\n", ntohs(server.sin_port))` -/
def portLine
    (port : Port) :
    List UInt8 :=
  literal "Port assigned is " ++ decimal (htons port).toNat ++ [10]

/-- The line about a message. -/
def messageLine
    (message : List UInt8)
    (client : Endpoint) :
    List UInt8 :=
  literal "Received message " ++ message ++ literal " from domain AF_INET port " ++
    decimal (htons client.port).toNat ++ literal " internet address " ++
    inetNtoa client.address ++ [10]

/-- `"Hello"` -/
def hello : List UInt8 :=
  literal "Hello"

/-- The address that the client sends to: `argv[1]` and `argv[2]`. -/
def target
    (argv : List (List UInt8)) :
    Endpoint where
  address := inetAddr (argv.getD 1 [])
  port := htons (BitVec.ofInt 16 (atoi (argv.getD 2 [])))

section Steps

variable {ι : Type u} (s : State ι)

/-- `printf` of the message, which looks for its zero. -/
def printMessage :
    State ι :=
  match strlen s.buf.contents with
  | none => { s with server := .overread }
  | some len =>
      { s with
        printed := s.printed ++ [messageLine (s.buf.contents.take len) s.client]
        server := .close }

/-- The steps of the server without a choice of the system but success. -/
def serverNext
    (succeeds : Bool) :
    Option (State ι) :=
  match s.server with
  | .socket => some { s with server := if succeeds then .bind else .exited 1 }
  | .bind => if succeeds then none else some { s with server := .exited 2 }
  | .getsockname => some { s with server := if succeeds then .printPort else .exited 3 }
  | .printPort =>
      some { s with printed := s.printed ++ [portLine s.port], server := .recvfrom }
  | .recvfrom => if succeeds then none else some { s with server := .exited 4 }
  | .printMessage => some (printMessage s)
  | .close => some { s with server := .returned }
  | .returned => none
  | .exited _ => none
  | .overread => none

/-- `bind` to a port that the system chooses. -/
def bindNext
    (port : Port) :
    Option (State ι) :=
  match s.server with
  | .bind => some { s with port := port, server := .getsockname }
  | _ => none

/-- A datagram to the port of the server and to an address of its host arrives. -/
def recvNext
    (isLocal : Address → Bool)
    (i : Nat) :
    Option (State ι) :=
  match s.server with
  | .recvfrom =>
      match Datagrams.deliver s.net i with
      | none => none
      | some (d, net) =>
          if d.target.port = s.port ∧ isLocal d.target.address then
            some { s with
              net := net
              buf := s.buf.overwrite d.payload
              client := d.source
              received := some d
              server := .printMessage }
          else none
  | _ => none

variable [DecidableEq ι]

/-- The steps of a client without a choice of the system but success. -/
def clientNext
    (argv : ι → List (List UInt8))
    (id : ι)
    (succeeds : Bool) :
    Option (State ι) :=
  let moved (pc : ClientPc) : State ι :=
    { s with clients := Function.update s.clients id pc }
  match s.clients id with
  | .checkArgs => some (moved (if (argv id).length ≠ 3 then .exited 1 else .socket))
  | .socket => some (moved (if succeeds then .sendto else .exited 1))
  | .sendto => if succeeds then none else some (moved (.exited 2))
  | .close => some (moved .returned)
  | .returned => none
  | .exited _ => none

/-- `sendto` of `strlen(buf) + 1` bytes. -/
def sendNext
    (argv : ι → List (List UInt8))
    (id : ι)
    (source : Endpoint) :
    Option (State ι) :=
  match s.clients id with
  | .sendto =>
      let d : Datagram := ⟨source, target (argv id), hello ++ [0]⟩
      some { s with
        net := s.net ++ [d]
        sent := s.sent ++ [(id, d)]
        clients := Function.update s.clients id .close }
  | _ => none

def next
    (argv : ι → List (List UInt8))
    (isLocal : Address → Bool) :
    Label ι → Option (State ι)
  | .server succeeds => serverNext s succeeds
  | .bind port => bindNext s port
  | .recvfrom i => recvNext s isLocal i
  | .client id succeeds => clientNext s argv id succeeds
  | .sendto id source => sendNext s argv id source
  | .foreign d => some { s with net := s.net ++ [d], foreign := s.foreign ++ [d] }
  | .disturb e => (Datagrams.disturb s.net e).map fun net => { s with net := net }

end Steps

/-- The server, the clients with their arguments, and the network. -/
def system
    {ι : Type u}
    [DecidableEq ι]
    (argv : ι → List (List UInt8))
    (isLocal : Address → Bool)
    (buf : MessageBuffer)
    (client : Endpoint) :
    TransitionSystem (State ι) (Label ι) :=
  .ofProgram (fun s => s = start buf client) (fun _ _ => True)
    (fun s => next s argv isLocal)

section Messages

variable {buf : MessageBuffer} {payload text rest : List UInt8}

/-- What the buffer holds when a datagram has been received. -/
def held
    (buf : MessageBuffer)
    (payload : List UInt8) :
    List UInt8 :=
  payload.take 32 ++ buf.contents.drop payload.length

theorem contents_overwrite
    (buf : MessageBuffer)
    (payload : List UInt8) :
    (buf.overwrite payload).contents = held buf payload :=
  Buffer.overwrite_contents buf payload

theorem strlen_held_eq_none_iff :
    strlen (held buf payload) = none ↔
      0 ∉ payload.take 32 ∧ 0 ∉ buf.contents.drop payload.length := by
  rw [CString.strlen_eq_none_iff, held, List.mem_append, not_or]

/-- The string in front of the first zero. -/
theorem strlen_eq_some
    {bytes : List UInt8}
    {len : Nat}
    (h : strlen bytes = some len) :
    0 ∉ bytes.take len ∧ ∃ rest, bytes = bytes.take len ++ 0 :: rest := by
  obtain ⟨hlt, hzero, hbefore⟩ := List.findIdx?_eq_some_iff_getElem.mp h
  constructor
  · intro hmem
    obtain ⟨j, hj, hget⟩ := List.getElem_of_mem hmem
    rw [List.length_take] at hj
    rw [List.getElem_take] at hget
    have hne := hbefore j (by omega)
    simp [hget] at hne
  · refine ⟨bytes.drop (len + 1), ?_⟩
    have hget : bytes[len] = 0 := by
      simpa using hzero
    rw [← hget, ← List.drop_eq_getElem_cons hlt, List.take_append_drop]

/-- The message of a client is seen as it was sent. -/
theorem held_hello
    (buf : MessageBuffer) :
    strlen (held buf (hello ++ [0])) = some hello.length ∧
    (held buf (hello ++ [0])).take hello.length = hello := by
  have hheld : held buf (hello ++ [0]) = hello ++ 0 :: buf.contents.drop 6 := rfl
  rw [hheld]
  exact ⟨CString.strlen_append_zero (by decide) _, List.take_left⟩

end Messages

section Invariant

variable {ι : Type u} {argv : ι → List (List UInt8)} {isLocal : Address → Bool}
  {buf : MessageBuffer} {s t : State ι}

/-- Somebody has sent the datagram. -/
def Origin
    (s : State ι)
    (d : Datagram) :
    Prop :=
  d ∈ s.foreign ∨ ∃ id, (id, d) ∈ s.sent

/-- What the server has printed and received at each point. -/
def Shown
    (buf : MessageBuffer)
    (s : State ι) :
    ServerPc → Prop
  | .printMessage =>
      s.printed = [portLine s.port] ∧
        ∃ d, s.received = some d ∧ s.buf = buf.overwrite d.payload ∧ s.client = d.source
  | .close => ∃ d len, s.received = some d ∧ strlen (held buf d.payload) = some len ∧
      s.printed =
        [portLine s.port, messageLine ((held buf d.payload).take len) d.source]
  | .returned => ∃ d len, s.received = some d ∧ strlen (held buf d.payload) = some len ∧
      s.printed =
        [portLine s.port, messageLine ((held buf d.payload).take len) d.source]
  | .overread =>
      s.printed = [portLine s.port] ∧
        ∃ d, s.received = some d ∧ strlen (held buf d.payload) = none
  | .recvfrom => s.printed = [portLine s.port] ∧ s.received = none ∧ s.buf = buf
  | .exited _ =>
      (s.printed = [] ∨ s.printed = [portLine s.port]) ∧ s.received = none
  | _ => s.printed = [] ∧ s.received = none ∧ s.buf = buf

structure Inv
    (argv : ι → List (List UInt8))
    (isLocal : Address → Bool)
    (buf : MessageBuffer)
    (s : State ι) :
    Prop where
  net : ∀ d ∈ s.net, Origin s d
  sent : ∀ id d, (id, d) ∈ s.sent →
    d.target = target (argv id) ∧ d.payload = hello ++ [0]
  received : ∀ d, s.received = some d →
    Origin s d ∧ d.target.port = s.port ∧ isLocal d.target.address = true
  shown : Shown buf s s.server

theorem inv_start
    (argv : ι → List (List UInt8))
    (isLocal : Address → Bool)
    (buf : MessageBuffer)
    (client : Endpoint) :
    Inv argv isLocal buf (start buf client) where
  net := nofun
  sent := nofun
  received := nofun
  shown := ⟨rfl, rfl, rfl⟩

/-- A step of the server by which nothing is received. -/
theorem Inv.serverMoves
    (h : Inv argv isLocal buf s)
    (hnet : t.net = s.net)
    (hsent : t.sent = s.sent)
    (hforeign : t.foreign = s.foreign)
    (hreceived : t.received = s.received)
    (hport : t.port = s.port)
    (hshown : Shown buf t t.server) :
    Inv argv isLocal buf t := by
  have horigin : ∀ d, Origin s d → Origin t d := by
    intro d hd
    rw [Origin, hforeign, hsent]
    exact hd
  refine ⟨fun d hd => horigin d (h.net d (hnet ▸ hd)), fun id d hd => h.sent id d (hsent ▸ hd),
    fun d hd => ?_, hshown⟩
  obtain ⟨hd', hport', hlocal⟩ := h.received d (hreceived ▸ hd)
  exact ⟨horigin d hd', by rw [hport, hport'], hlocal⟩

theorem inv_serverNext
    (h : Inv argv isLocal buf s)
    {succeeds : Bool}
    (hnext : serverNext s succeeds = some t) :
    Inv argv isLocal buf t := by
  have hshown := h.shown
  cases hpc : s.server with
  | socket =>
      simp only [serverNext, hpc, Option.some.injEq] at hnext
      subst hnext
      rw [hpc] at hshown
      refine h.serverMoves rfl rfl rfl rfl rfl ?_
      cases succeeds with
      | true =>
          exact hshown
      | false =>
          exact ⟨Or.inl hshown.1, hshown.2.1⟩
  | bind =>
      simp only [serverNext, hpc] at hnext
      split_ifs at hnext
      cases hnext
      rw [hpc] at hshown
      exact h.serverMoves rfl rfl rfl rfl rfl ⟨Or.inl hshown.1, hshown.2.1⟩
  | getsockname =>
      simp only [serverNext, hpc, Option.some.injEq] at hnext
      subst hnext
      rw [hpc] at hshown
      refine h.serverMoves rfl rfl rfl rfl rfl ?_
      cases succeeds with
      | true =>
          exact hshown
      | false =>
          exact ⟨Or.inl hshown.1, hshown.2.1⟩
  | printPort =>
      simp only [serverNext, hpc, Option.some.injEq] at hnext
      subst hnext
      rw [hpc] at hshown
      obtain ⟨hprinted, hrest⟩ := hshown
      exact h.serverMoves rfl rfl rfl rfl rfl ⟨by simp [hprinted], hrest⟩
  | recvfrom =>
      simp only [serverNext, hpc] at hnext
      split_ifs at hnext
      cases hnext
      rw [hpc] at hshown
      exact h.serverMoves rfl rfl rfl rfl rfl ⟨Or.inr hshown.1, hshown.2.1⟩
  | printMessage =>
      simp only [serverNext, hpc, Option.some.injEq] at hnext
      subst hnext
      rw [hpc] at hshown
      obtain ⟨hprinted, d, hreceived, hbuf, hclient⟩ := hshown
      cases hlen : strlen s.buf.contents with
      | none =>
          simp only [printMessage, hlen]
          refine h.serverMoves rfl rfl rfl rfl rfl ⟨hprinted, d, hreceived, ?_⟩
          rw [← contents_overwrite, ← hbuf, hlen]
      | some len =>
          simp only [printMessage, hlen]
          refine h.serverMoves rfl rfl rfl rfl rfl ⟨d, len, hreceived, ?_, ?_⟩
          · rw [← contents_overwrite, ← hbuf, hlen]
          · rw [hprinted, hbuf, contents_overwrite, hclient]
            rfl
  | close =>
      simp only [serverNext, hpc, Option.some.injEq] at hnext
      subst hnext
      rw [hpc] at hshown
      exact h.serverMoves rfl rfl rfl rfl rfl hshown
  | returned =>
      simp [serverNext, hpc] at hnext
  | exited status =>
      simp [serverNext, hpc] at hnext
  | overread =>
      simp [serverNext, hpc] at hnext

theorem inv_bindNext
    (h : Inv argv isLocal buf s)
    {port : Port}
    (hnext : bindNext s port = some t) :
    Inv argv isLocal buf t := by
  have hshown := h.shown
  cases hpc : s.server with
  | bind =>
      simp only [bindNext, hpc, Option.some.injEq] at hnext
      subst hnext
      rw [hpc] at hshown
      refine ⟨h.net, h.sent, fun d hd => ?_, hshown⟩
      rw [show s.received = none from hshown.2.1] at hd
      cases hd
  | _ => simp [bindNext, hpc] at hnext

theorem inv_recvNext
    (h : Inv argv isLocal buf s)
    {i : Nat}
    (hnext : recvNext s isLocal i = some t) :
    Inv argv isLocal buf t := by
  have hshown := h.shown
  cases hpc : s.server with
  | recvfrom =>
      simp only [recvNext, hpc] at hnext
      rw [hpc] at hshown
      obtain ⟨hprinted, -, hbuf⟩ := hshown
      cases hdeliver : Datagrams.deliver s.net i with
      | none =>
          rw [hdeliver] at hnext
          cases hnext
      | some arrived =>
          obtain ⟨d, net⟩ := arrived
          rw [hdeliver] at hnext
          dsimp only at hnext
          split_ifs at hnext with haddressed
          cases hnext
          obtain ⟨hmem, hsubset⟩ := Datagrams.deliver_eq_some hdeliver
          refine ⟨fun d' hd' => h.net d' (hsubset hd'), h.sent, fun d' hd' => ?_,
            hprinted, d, rfl, by rw [hbuf], rfl⟩
          cases hd'
          exact ⟨h.net d hmem, haddressed⟩
  | _ => simp [recvNext, hpc] at hnext

/-- What the clients and the network do leaves the server alone. -/
theorem Inv.elsewhere
    (h : Inv argv isLocal buf s)
    {clients : ι → ClientPc}
    {net : List Datagram}
    {sent : List (ι × Datagram)}
    {foreign : List Datagram}
    (hsent : ∀ p ∈ s.sent, p ∈ sent)
    (hforeign : ∀ d ∈ s.foreign, d ∈ foreign)
    (hnet : ∀ d ∈ net, d ∈ s.net ∨ d ∈ foreign ∨ ∃ id, (id, d) ∈ sent)
    (hshape : ∀ id d, (id, d) ∈ sent →
      (id, d) ∈ s.sent ∨ d.target = target (argv id) ∧ d.payload = hello ++ [0]) :
    Inv argv isLocal buf
      { s with clients := clients, net := net, sent := sent, foreign := foreign } := by
  have horigin : ∀ d, Origin s d → d ∈ foreign ∨ ∃ id, (id, d) ∈ sent := by
    rintro d (hd | ⟨id, hd⟩)
    · exact Or.inl (hforeign d hd)
    · exact Or.inr ⟨id, hsent _ hd⟩
  refine ⟨fun d hd => ?_, fun id d hd => ?_, fun d hd => ?_, h.shown⟩
  · exact (hnet d hd).elim (fun hold => horigin d (h.net d hold)) (fun hnew => hnew)
  · exact (hshape id d hd).elim (h.sent id d) (fun hnew => hnew)
  · obtain ⟨hd', haddressed⟩ := h.received d hd
    exact ⟨horigin d hd', haddressed⟩

variable [DecidableEq ι]

theorem inv_clientNext
    (h : Inv argv isLocal buf s)
    {id : ι}
    {succeeds : Bool}
    (hnext : clientNext s argv id succeeds = some t) :
    Inv argv isLocal buf t := by
  have hmoved : ∀ pc : ClientPc,
      Inv argv isLocal buf { s with clients := Function.update s.clients id pc } := by
    intro pc
    exact h.elsewhere (fun p hp => hp) (fun d hd => hd) (fun d hd => Or.inl hd)
      (fun id d hd => Or.inl hd)
  cases hpc : s.clients id with
  | checkArgs =>
      simp only [clientNext, hpc, Option.some.injEq] at hnext
      subst hnext
      exact hmoved _
  | socket =>
      simp only [clientNext, hpc, Option.some.injEq] at hnext
      subst hnext
      exact hmoved _
  | sendto =>
      simp only [clientNext, hpc] at hnext
      split_ifs at hnext
      cases hnext
      exact hmoved _
  | close =>
      simp only [clientNext, hpc, Option.some.injEq] at hnext
      subst hnext
      exact hmoved _
  | returned =>
      simp [clientNext, hpc] at hnext
  | exited status =>
      simp [clientNext, hpc] at hnext

theorem inv_sendNext
    (h : Inv argv isLocal buf s)
    {id : ι}
    {source : Endpoint}
    (hnext : sendNext s argv id source = some t) :
    Inv argv isLocal buf t := by
  cases hpc : s.clients id with
  | sendto =>
      simp only [sendNext, hpc, Option.some.injEq] at hnext
      subst hnext
      refine h.elsewhere (fun p hp => List.mem_append_left _ hp) (fun d hd => hd)
        (fun d hd => ?_) (fun id' d hd => ?_)
      · rcases List.mem_append.mp hd with hold | hnew
        · exact Or.inl hold
        · exact Or.inr (Or.inr ⟨id, List.mem_append_right _ (by
            rw [List.mem_singleton.mp hnew]
            exact List.mem_singleton_self _)⟩)
      · rcases List.mem_append.mp hd with hold | hnew
        · exact Or.inl hold
        · cases List.mem_singleton.mp hnew
          exact Or.inr ⟨rfl, rfl⟩
  | _ => simp [sendNext, hpc] at hnext

theorem inv_of_reachable
    {client : Endpoint}
    (h : (system argv isLocal buf client).Reachable s) :
    Inv argv isLocal buf s := by
  refine h.invariant (I := Inv argv isLocal buf) ?_ ?_
  · rintro s rfl
    exact inv_start argv isLocal buf client
  · rintro s a t hinv ⟨-, hnext⟩
    cases a with
    | server succeeds =>
        exact inv_serverNext hinv hnext
    | bind port =>
        exact inv_bindNext hinv hnext
    | recvfrom i =>
        exact inv_recvNext hinv hnext
    | client id succeeds =>
        exact inv_clientNext hinv hnext
    | sendto id source =>
        exact inv_sendNext hinv hnext
    | foreign d =>
        simp only [next, Option.some.injEq] at hnext
        subst hnext
        refine hinv.elsewhere (fun p hp => hp) (fun d hd => List.mem_append_left _ hd)
          (fun d' hd => ?_) (fun id d hd => Or.inl hd)
        rcases List.mem_append.mp hd with hold | hnew
        · exact Or.inl hold
        · exact Or.inr (Or.inl (List.mem_append_right _ hnew))
    | disturb e =>
        obtain ⟨net, hnet, rfl⟩ := Option.map_eq_some_iff.mp hnext
        exact hinv.elsewhere (fun p hp => hp) (fun d hd => hd)
          (fun d hd => Or.inl (Datagrams.disturb_subset hnet hd)) (fun id d hd => Or.inl hd)

end Invariant

section Results

variable {ι : Type u} [DecidableEq ι]

/-- Whatever has arrived: it was sent to the server, and what is printed is the string in
front of the first zero of the datagram or, behind it, of what the buffer has held before.
Without a zero in either, and only then, `printf` reads behind the buffer. -/
theorem message_of_reachable
    (argv : ι → List (List UInt8))
    (isLocal : Address → Bool)
    (buf : MessageBuffer)
    (client : Endpoint)
    (s : State ι)
    (h : (system argv isLocal buf client).Reachable s)
    (d : Datagram)
    (hd : s.received = some d) :
    Origin s d ∧ d.target.port = s.port ∧ isLocal d.target.address = true ∧
    ((s.server = .printMessage ∧ s.printed = [portLine s.port]) ∨
      (s.server = .overread ∧ s.printed = [portLine s.port] ∧
        0 ∉ d.payload.take 32 ∧ 0 ∉ buf.contents.drop d.payload.length) ∨
      ((s.server = .close ∨ s.server = .returned) ∧
        ∃ text rest, 0 ∉ text ∧
          d.payload.take 32 ++ buf.contents.drop d.payload.length = text ++ 0 :: rest ∧
          s.printed = [portLine s.port, messageLine text d.source])) := by
  have hinv := inv_of_reachable h
  obtain ⟨horigin, hport, hlocal⟩ := hinv.received d hd
  refine ⟨horigin, hport, hlocal, ?_⟩
  have hshown := hinv.shown
  have hclosed : ∀ d' len, s.received = some d' → strlen (held buf d'.payload) = some len →
      s.printed =
        [portLine s.port, messageLine ((held buf d'.payload).take len) d'.source] →
      ∃ text rest, 0 ∉ text ∧
        d.payload.take 32 ++ buf.contents.drop d.payload.length = text ++ 0 :: rest ∧
        s.printed = [portLine s.port, messageLine text d.source] := by
    intro d' len hd' hlen hprinted
    rw [hd] at hd'
    cases hd'
    obtain ⟨hzero, rest, hsplit⟩ := strlen_eq_some hlen
    exact ⟨_, rest, hzero, hsplit, hprinted⟩
  cases hpc : s.server with
  | printMessage =>
      rw [hpc] at hshown
      exact Or.inl ⟨rfl, hshown.1⟩
  | overread =>
      rw [hpc] at hshown
      obtain ⟨hprinted, d', hd', hlen⟩ := hshown
      rw [hd] at hd'
      cases hd'
      exact Or.inr (Or.inl ⟨rfl, hprinted, strlen_held_eq_none_iff.mp hlen⟩)
  | close =>
      rw [hpc] at hshown
      obtain ⟨d', len, hd', hlen, hprinted⟩ := hshown
      exact Or.inr (Or.inr ⟨Or.inl rfl, hclosed d' len hd' hlen hprinted⟩)
  | returned =>
      rw [hpc] at hshown
      obtain ⟨d', len, hd', hlen, hprinted⟩ := hshown
      exact Or.inr (Or.inr ⟨Or.inr rfl, hclosed d' len hd' hlen hprinted⟩)
  | exited status =>
      rw [hpc] at hshown
      rw [hshown.2] at hd
      cases hd
  | _ =>
      rw [hpc] at hshown
      rw [show s.received = none from hshown.2.1] at hd
      cases hd

/-- A buffer without a zero. -/
def ones : MessageBuffer where
  contents := List.replicate 32 1
  size_eq := List.length_replicate

/-- The arguments of the one client. -/
def loopback : Unit → List (List UInt8) :=
  fun _ => [literal "client", literal "127.0.0.1", literal "5"]

/-- The server waits for a datagram, at port `5`. -/
def waiting : List (Label Unit) :=
  [.server true, .bind (htons 5), .server true, .server true]

/-- A datagram without a zero fills the buffer. -/
def unterminated : List (Label Unit) :=
  waiting ++
    [.foreign ⟨⟨1, 1⟩, ⟨1, htons 5⟩, List.replicate 40 2⟩, .recvfrom 0, .server true]

theorem message_of_reachable_unterminated :
    ∃ s : State Unit, ∃ d, s.received = some d ∧ Origin s d ∧ s.server = .overread := by
  have hstart :
      (system loopback (fun _ => true) ones ⟨0, 0⟩).Reachable (start ones ⟨0, 0⟩) :=
    TransitionSystem.Reachable.init rfl
  obtain ⟨s, hs, htest⟩ :=
    TransitionSystem.exists_reachable_of_exec
      unterminated
      (fun s : State Unit => decide (s.received.isSome = true ∧ s.server = .overread))
      hstart
      (by decide +kernel)
      (by decide +kernel)
  obtain ⟨hsome, hserver⟩ := of_decide_eq_true htest
  obtain ⟨d, hd⟩ := Option.isSome_iff_exists.mp hsome
  exact ⟨s, d, hd, (message_of_reachable loopback (fun _ => true) ones ⟨0, 0⟩ s hs d hd).1,
    hserver⟩

/-- Among clients only, the server prints at most one message: `Hello`, with the address
of a client whose arguments lead to the server. It never reads behind the buffer. -/
theorem prints_hello
    (argv : ι → List (List UInt8))
    (isLocal : Address → Bool)
    (buf : MessageBuffer)
    (client : Endpoint)
    (s : State ι)
    (h : (system argv isLocal buf client).Reachable s)
    (hforeign : s.foreign = []) :
    s.server ≠ .overread ∧
    (s.printed = [] ∨ s.printed = [portLine s.port] ∨
      ∃ id d, (id, d) ∈ s.sent ∧ (target (argv id)).port = s.port ∧
        isLocal (target (argv id)).address = true ∧
        s.printed = [portLine s.port, messageLine hello d.source]) := by
  have hinv := inv_of_reachable h
  have hsent : ∀ d, s.received = some d → ∃ id, (id, d) ∈ s.sent ∧
      (target (argv id)).port = s.port ∧ isLocal (target (argv id)).address = true ∧
      d.payload = hello ++ [0] := by
    intro d hd
    obtain ⟨horigin, hport, hlocal⟩ := hinv.received d hd
    rcases horigin with hd' | ⟨id, hid⟩
    · rw [hforeign] at hd'
      cases hd'
    · obtain ⟨htarget, hpayload⟩ := hinv.sent id d hid
      rw [htarget] at hport hlocal
      exact ⟨id, hid, hport, hlocal, hpayload⟩
  have hclosed : ∀ d len, s.received = some d → strlen (held buf d.payload) = some len →
      s.printed =
        [portLine s.port, messageLine ((held buf d.payload).take len) d.source] →
      ∃ id d, (id, d) ∈ s.sent ∧ (target (argv id)).port = s.port ∧
        isLocal (target (argv id)).address = true ∧
        s.printed = [portLine s.port, messageLine hello d.source] := by
    intro d len hd hlen hprinted
    obtain ⟨id, hid, hport, hlocal, hpayload⟩ := hsent d hd
    obtain ⟨hlen', htake⟩ := held_hello buf
    rw [hpayload, hlen'] at hlen
    cases hlen
    rw [hpayload, htake] at hprinted
    exact ⟨id, d, hid, hport, hlocal, hprinted⟩
  have hshown := hinv.shown
  cases hpc : s.server with
  | printMessage =>
      rw [hpc] at hshown
      exact ⟨nofun, Or.inr (Or.inl hshown.1)⟩
  | overread =>
      rw [hpc] at hshown
      obtain ⟨-, d, hd, hlen⟩ := hshown
      obtain ⟨-, -, -, -, hpayload⟩ := hsent d hd
      rw [hpayload, (held_hello buf).1] at hlen
      cases hlen
  | close =>
      rw [hpc] at hshown
      obtain ⟨d, len, hd, hlen, hprinted⟩ := hshown
      exact ⟨nofun, Or.inr (Or.inr (hclosed d len hd hlen hprinted))⟩
  | returned =>
      rw [hpc] at hshown
      obtain ⟨d, len, hd, hlen, hprinted⟩ := hshown
      exact ⟨nofun, Or.inr (Or.inr (hclosed d len hd hlen hprinted))⟩
  | exited status =>
      rw [hpc] at hshown
      exact ⟨nofun, hshown.1.elim Or.inl fun hprinted => Or.inr (Or.inl hprinted)⟩
  | recvfrom =>
      rw [hpc] at hshown
      exact ⟨nofun, Or.inr (Or.inl hshown.1)⟩
  | _ =>
      rw [hpc] at hshown
      exact ⟨nofun, Or.inl hshown.1⟩

/-- The message of the one client is printed. -/
def greeted : List (Label Unit) :=
  waiting ++
    [.client () true, .client () true, .sendto () ⟨1, 1⟩, .recvfrom 0, .server true]

theorem prints_hello_greeted :
    ∃ s : State Unit, s.printed.length = 2 ∧ s.server ≠ .overread ∧
      ∃ d : Datagram, s.printed = [portLine s.port, messageLine hello d.source] := by
  have hstart :
      (system loopback (fun _ => true) ones ⟨0, 0⟩).Reachable (start ones ⟨0, 0⟩) :=
    TransitionSystem.Reachable.init rfl
  obtain ⟨s, hs, htest⟩ :=
    TransitionSystem.exists_reachable_of_exec
      greeted
      (fun s : State Unit => decide (s.printed.length = 2 ∧ s.foreign = []))
      hstart
      (by decide +kernel)
      (by decide +kernel)
  obtain ⟨hlength, hforeign⟩ := of_decide_eq_true htest
  obtain ⟨hserver, hnone | hport | ⟨id, d, -, -, -, hprinted⟩⟩ :=
    prints_hello loopback (fun _ => true) ones ⟨0, 0⟩ s hs hforeign
  · rw [hnone] at hlength
    cases hlength
  · rw [hport] at hlength
    cases hlength
  · exact ⟨s, hlength, hserver, d, hprinted⟩

/-- A client that is given an address of the server as `inet_ntoa` writes it and the
number that the server has printed sends to the server. -/
theorem target_of_printed
    (program : List UInt8)
    (address : Address)
    (port : Port) :
    target [program, inetNtoa address, decimal (htons port).toNat] = ⟨address, port⟩ := by
  simp only [target, List.getD_cons_succ, List.getD_cons_zero]
  rw [InetAddress.inetAddr_inetNtoa, InetAddress.htons_atoi_decimal]

/-- Such a client can always reach the waiting server, whatever else is on its way. -/
theorem exists_greeting
    (argv : ι → List (List UInt8))
    (isLocal : Address → Bool)
    (buf : MessageBuffer)
    (client : Endpoint)
    (s : State ι)
    (h : (system argv isLocal buf client).Reachable s)
    (hserver : s.server = .recvfrom)
    (id : ι)
    (hclient : s.clients id = .checkArgs)
    (program : List UInt8)
    (address : Address)
    (hargv : argv id = [program, inetNtoa address, decimal (htons s.port).toNat])
    (hlocal : isLocal address = true)
    (source : Endpoint) :
    ∃ t, (system argv isLocal buf client).Runs s t ∧
      t.printed = [portLine s.port, messageLine hello source] := by
  have hshown := (inv_of_reachable h).shown
  rw [hserver] at hshown
  obtain ⟨hprinted, -, hbuf⟩ := hshown
  have htarget : target (argv id) = ⟨address, s.port⟩ := by
    rw [hargv, target_of_printed]
  let d : Datagram := ⟨source, ⟨address, s.port⟩, hello ++ [0]⟩
  let s₁ : State ι := { s with clients := Function.update s.clients id .socket }
  let s₂ : State ι := { s with clients := Function.update s.clients id .sendto }
  let s₃ : State ι :=
    { s with
      clients := Function.update s.clients id .close
      net := s.net ++ [d]
      sent := s.sent ++ [(id, d)] }
  let s₄ : State ι :=
    { s₃ with
      net := s.net
      buf := s.buf.overwrite d.payload
      client := source
      received := some d
      server := .printMessage }
  have h₁ : next s argv isLocal (.client id true) = some s₁ := by
    simp [next, clientNext, hclient, hargv, s₁]
  have h₂ : next s₁ argv isLocal (.client id true) = some s₂ := by
    simp [next, clientNext, s₁, s₂]
  have h₃ : next s₂ argv isLocal (.sendto id source) = some s₃ := by
    simp [next, sendNext, s₂, s₃, d, htarget]
  have h₄ : next s₃ argv isLocal (.recvfrom s.net.length) = some s₄ := by
    have hdeliver : Datagrams.deliver s₃.net s.net.length = some (d, s.net) := by
      simp [Datagrams.deliver, s₃, List.eraseIdx_append_of_length_le]
    simp only [next, recvNext, show s₃.server = .recvfrom from hserver, hdeliver]
    exact if_pos ⟨rfl, hlocal⟩
  have h₅ : next s₄ argv isLocal (.server true) = some (printMessage s₄) :=
    rfl
  refine ⟨printMessage s₄,
    .head ⟨trivial, h₁⟩ (.head ⟨trivial, h₂⟩ (.head ⟨trivial, h₃⟩ (.head ⟨trivial, h₄⟩
      (.head ⟨trivial, h₅⟩ .refl)))), ?_⟩
  obtain ⟨hlen, htake⟩ := held_hello s.buf
  rw [← contents_overwrite] at hlen htake
  have hshow : printMessage s₄ =
      { s₄ with
        printed := s.printed ++ [messageLine hello source]
        server := .close } := by
    rw [printMessage, show strlen s₄.buf.contents = some hello.length from hlen]
    simp only [show s₄.buf.contents.take hello.length = hello from htake]
    rfl
  rw [hshow, hprinted]
  rfl

theorem exists_greeting_waiting :
    ∃ s t : State Unit,
      (system loopback (fun _ => true) ones ⟨0, 0⟩).Runs s t ∧
        t.printed = [portLine s.port, messageLine hello ⟨1, 1⟩] := by
  have hstart :
      (system loopback (fun _ => true) ones ⟨0, 0⟩).Reachable (start ones ⟨0, 0⟩) :=
    TransitionSystem.Reachable.init rfl
  obtain ⟨s, hs, htest⟩ :=
    TransitionSystem.exists_reachable_of_exec
      waiting
      (fun s : State Unit => decide (s.server = .recvfrom ∧ s.clients () = .checkArgs ∧
        s.port = htons 5))
      hstart
      (by decide +kernel)
      (by decide +kernel)
  obtain ⟨hserver, hclient, hport⟩ := of_decide_eq_true htest
  have hargv : loopback () =
      [literal "client", inetNtoa 0x7f000001, decimal (htons s.port).toNat] := by
    rw [hport]
    decide +kernel
  obtain ⟨t, hruns, hprinted⟩ :=
    exists_greeting loopback (fun _ => true) ones ⟨0, 0⟩ s hs hserver () hclient
      (literal "client") 0x7f000001 hargv rfl ⟨1, 1⟩
  exact ⟨s, t, hruns, hprinted⟩

end Results

end UdpHello
end Networking
end OsSeminars
