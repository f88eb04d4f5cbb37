import OsSeminars.Foundation.ByteStream
import OsSeminars.Foundation.TransitionSystem
import Mathlib.Data.List.Nodup
import Mathlib.Logic.Function.Basic

/-!
# `sleepy-server.c`: one client after the other

The server accepts a connection, sleeps, writes its response, and shuts the connection
down before it accepts the next one. Clients may connect at any time: the kernel puts
their connections into the queue that `accept` takes from. When `accept` fails the
server reports it and goes on.

The clients are arbitrary, and each connects once. A response fits into the buffer of a
new connection, so that `write` takes all of it. The steps in front of the loop, which
make the socket listen, are left out.
-/

namespace OsSeminars
namespace Networking
namespace SleepyServer

open Foundation

universe u

/-- `resp` as `strlen` sees it. -/
def resp : List UInt8 :=
  "sleeping beauty says hi".toList.map Char.toUInt8

/-- The loop of `main`; the argument is the client of `new_socket_fd`. -/
inductive Pc (κ : Type u)
  | accept
  | sleep (c : κ)
  | write (c : κ)
  | print (c : κ)
  | shutdown (c : κ)
  | close (c : κ)
  deriving DecidableEq

namespace Pc

variable {κ : Type u}

/-- The client that is being served. -/
def current : Pc κ → List κ
  | accept => []
  | sleep c | write c | print c | shutdown c | close c => [c]

/-- The client, if the response has been written to it. -/
def answered : Pc κ → List κ
  | print c | shutdown c | close c => [c]
  | _ => []

/-- The client, if its connection has been shut down. -/
def ended : Pc κ → List κ
  | close c => [c]
  | _ => []

end Pc

structure Server (κ : Type u) where
  pc : Pc κ
  /-- connections that have not been accepted -/
  backlog : List κ
  /-- what the server sends to each client -/
  streams : κ → ByteStream
  /-- the clients in the order in which they have connected -/
  connected : List κ
  /-- the clients in the order in which their connections were closed -/
  closed : List κ
  /-- the lines of `printf` and `perror` in the loop -/
  printed : List String

inductive Label (κ : Type u)
  | connect (c : κ)
  | serve (fails : Bool)
  | arrive (c : κ) (count : Nat)
  | read (c : κ) (size count : Nat)
  deriving DecidableEq

/-- The server in front of its first `accept`. -/
def listening (κ : Type u) : Server κ where
  pc := .accept
  backlog := []
  streams _ := .empty
  connected := []
  closed := []
  printed := []

section Steps

variable {κ : Type u} [DecidableEq κ] (s : Server κ)

/-- The kernel completes the connection of a client. -/
def connect
    (c : κ) :
    Option (Server κ) :=
  if c ∈ s.connected then none
  else some { s with backlog := s.backlog ++ [c], connected := s.connected ++ [c] }

/-- One step of the loop; `accept` may fail for a reason of its own. -/
def serve
    (fails : Bool) :
    Option (Server κ) :=
  match s.pc with
  | .accept =>
      if fails then some { s with printed := s.printed ++ ["accept"] }
      else
        match s.backlog with
        | [] => none
        | c :: backlog => some { s with pc := .sleep c, backlog := backlog }
  | .sleep c => some { s with pc := .write c }
  | .write c =>
      some { s with
        pc := .print c
        streams := Function.update s.streams c ((s.streams c).send resp) }
  | .print c =>
      some { s with pc := .shutdown c, printed := s.printed ++ ["connection accepted\n"] }
  | .shutdown c =>
      some { s with
        pc := .close c
        streams := Function.update s.streams c (s.streams c).finish }
  | .close c => some { s with pc := .accept, closed := s.closed ++ [c] }

/-- Bytes of the server, or the end of its stream, arrive at a client. -/
def arrive
    (c : κ)
    (count : Nat) :
    Option (Server κ) :=
  ((s.streams c).arrive count).map fun stream =>
    { s with streams := Function.update s.streams c stream }

/-- A client reads from its connection. -/
def read
    (c : κ)
    (size count : Nat) :
    Option (ByteStream.ReadResult × Server κ) :=
  ((s.streams c).read size count).map fun r =>
    (r.1, { s with streams := Function.update s.streams c r.2 })

def next :
    Label κ → Option (Server κ)
  | .connect c => connect s c
  | .serve fails => serve s fails
  | .arrive c count => arrive s c count
  | .read c size count => (read s c size count).map Prod.snd

end Steps

/-- The server and its clients. -/
def system
    (κ : Type u)
    [DecidableEq κ] :
    TransitionSystem (Server κ) (Label κ) :=
  .ofProgram (fun s => s = listening κ) (fun _ _ => True) next

section Serving

variable {κ : Type u} {s t : Server κ}

/-- The clients to whom the response has been written. -/
def answered
    (s : Server κ) :
    List κ :=
  s.closed ++ s.pc.answered

/-- The clients whose connections have been shut down. -/
def ended
    (s : Server κ) :
    List κ :=
  s.closed ++ s.pc.ended

/-- Every client that has connected was served, is being served or waits, in this order,
and what was sent to it depends on that alone. -/
structure Serving
    (s : Server κ) :
    Prop where
  order : s.closed ++ s.pc.current ++ s.backlog = s.connected
  nodup : s.connected.Nodup
  sent : ∀ c, c ∈ answered s → (s.streams c).sent = resp
  unsent : ∀ c, c ∉ answered s → (s.streams c).sent = []
  finSent : ∀ c, (s.streams c).finSent = true ↔ c ∈ ended s
  ordered : ∀ c, (s.streams c).Ordered

theorem serving_listening (κ : Type u) :
    Serving (listening κ) where
  order := rfl
  nodup := List.nodup_nil
  sent := fun c hc => by cases hc
  unsent := fun _ _ => rfl
  finSent := fun c => by simp [listening, ByteStream.empty, ended, Pc.ended]
  ordered := fun _ => ByteStream.ordered_empty

/-- The client that is being served is none of those served before. -/
theorem Serving.not_closed
    (h : Serving s)
    {c : κ}
    (hc : c ∈ s.pc.current) :
    c ∉ s.closed := by
  have hnodup := h.nodup
  rw [← h.order, List.append_assoc, List.nodup_append] at hnodup
  intro hclosed
  exact hnodup.2.2 c hclosed c (List.mem_append_left _ hc) rfl

/-- A step that leaves the streams alone, and whom they have been written to. -/
theorem Serving.keep
    (h : Serving s)
    (horder : t.closed ++ t.pc.current ++ t.backlog = t.connected)
    (hnodup : t.connected.Nodup)
    (hstreams : t.streams = s.streams)
    (hanswered : answered t = answered s)
    (hended : ended t = ended s) :
    Serving t where
  order := horder
  nodup := hnodup
  sent := by
    rw [hanswered, hstreams]
    exact h.sent
  unsent := by
    rw [hanswered, hstreams]
    exact h.unsent
  finSent := by
    rw [hended, hstreams]
    exact h.finSent
  ordered := by
    rw [hstreams]
    exact h.ordered

theorem ended_subset_answered
    (s : Server κ) :
    ended s ⊆ answered s := by
  intro c hc
  rcases List.mem_append.mp hc with hclosed | hcurrent
  · exact List.mem_append_left _ hclosed
  · cases hpc : s.pc with
    | close c' =>
        rw [hpc] at hcurrent
        rw [answered, hpc]
        exact List.mem_append_right _ hcurrent
    | _ =>
        rw [hpc] at hcurrent
        cases hcurrent

variable [DecidableEq κ]

/-- What holds of all streams holds after a change of one of them. -/
theorem forall_streams
    {P : κ → ByteStream → Prop}
    {c : κ}
    {stream : ByteStream}
    (hchanged : P c stream)
    (hothers : ∀ c', c' ≠ c → P c' (s.streams c')) :
    ∀ c', P c' (Function.update s.streams c stream c') :=
  (Function.forall_update_iff s.streams P).mpr ⟨hchanged, hothers⟩

/-- A step of one stream that sends nothing. -/
theorem Serving.move
    (h : Serving s)
    {c : κ}
    {stream : ByteStream}
    (hsent : stream.sent = (s.streams c).sent)
    (hfin : stream.finSent = (s.streams c).finSent)
    (hordered : stream.Ordered) :
    Serving { s with streams := Function.update s.streams c stream } where
  order := h.order
  nodup := h.nodup
  sent := forall_streams (P := fun c' stream => c' ∈ answered s → stream.sent = resp)
    (fun hc => hsent.trans (h.sent c hc)) (fun c' _ => h.sent c')
  unsent := forall_streams (P := fun c' stream => c' ∉ answered s → stream.sent = [])
    (fun hc => hsent.trans (h.unsent c hc)) (fun c' _ => h.unsent c')
  finSent := forall_streams (P := fun c' stream => stream.finSent = true ↔ c' ∈ ended s)
    (by rw [hfin]; exact h.finSent c) (fun c' _ => h.finSent c')
  ordered := forall_streams (P := fun _ stream => stream.Ordered)
    hordered (fun c' _ => h.ordered c')

theorem Serving.connect
    (h : Serving s)
    {c : κ}
    (hnext : connect s c = some t) :
    Serving t := by
  unfold SleepyServer.connect at hnext
  split_ifs at hnext with hold
  cases hnext
  refine h.keep ?_ ?_ rfl rfl rfl
  · rw [← List.append_assoc, h.order]
  · exact List.nodup_append.mpr ⟨h.nodup, List.nodup_singleton c, by
      rintro a ha b hb rfl
      rw [List.mem_singleton.mp hb] at ha
      exact hold ha⟩

/-- The response is written to the client that is being served. -/
theorem Serving.write
    (h : Serving s)
    {c : κ}
    (hpc : s.pc = .write c) :
    Serving
      { s with
        pc := .print c
        streams := Function.update s.streams c ((s.streams c).send resp) } := by
  have hnew : c ∉ s.closed := h.not_closed (by rw [hpc]; exact List.mem_singleton_self c)
  have hanswered : answered s = s.closed := by
    rw [answered, hpc]
    exact List.append_nil _
  have hended : ended s = s.closed := by
    rw [ended, hpc]
    exact List.append_nil _
  have hempty : (s.streams c).sent = [] := h.unsent c (by rw [hanswered]; exact hnew)
  have hopen : (s.streams c).finSent = false := by
    rw [← Bool.not_eq_true, h.finSent c, hended]
    exact hnew
  have horder := h.order
  rw [hpc] at horder
  exact
    { order := horder
      nodup := h.nodup
      sent := forall_streams
        (P := fun c' stream => c' ∈ s.closed ++ [c] → stream.sent = resp)
        (fun _ => by rw [ByteStream.sent_send, hempty, List.nil_append])
        (fun c' hne hc' => h.sent c' (by
          rw [hanswered]
          exact (List.mem_append.mp hc').resolve_right fun hcurrent =>
            hne (List.mem_singleton.mp hcurrent)))
      unsent := forall_streams
        (P := fun c' stream => c' ∉ s.closed ++ [c] → stream.sent = [])
        (fun hc => absurd (List.mem_append_right _ (List.mem_singleton_self c)) hc)
        (fun c' _ hc' => h.unsent c' (by
          rw [hanswered]
          exact fun hclosed => hc' (List.mem_append_left _ hclosed)))
      finSent := forall_streams
        (P := fun c' stream => stream.finSent = true ↔ c' ∈ s.closed ++ [])
        (by rw [List.append_nil, ← hended]; exact h.finSent c)
        (fun c' _ => by rw [List.append_nil, ← hended]; exact h.finSent c')
      ordered := forall_streams (P := fun _ stream => stream.Ordered)
        ((h.ordered c).send hopen) (fun c' _ => h.ordered c') }

/-- The connection of the client that is being served is shut down. -/
theorem Serving.shutdown
    (h : Serving s)
    {c : κ}
    (hpc : s.pc = .shutdown c) :
    Serving
      { s with
        pc := .close c
        streams := Function.update s.streams c (s.streams c).finish } := by
  have hended : ended s = s.closed := by
    rw [ended, hpc]
    exact List.append_nil _
  have hanswered : answered s = s.closed ++ [c] := by
    rw [answered, hpc]
    rfl
  have horder := h.order
  rw [hpc] at horder
  exact
    { order := horder
      nodup := h.nodup
      sent := forall_streams
        (P := fun c' stream => c' ∈ s.closed ++ [c] → stream.sent = resp)
        (fun hc => h.sent c (by rw [hanswered]; exact hc))
        (fun c' _ hc' => h.sent c' (by rw [hanswered]; exact hc'))
      unsent := forall_streams
        (P := fun c' stream => c' ∉ s.closed ++ [c] → stream.sent = [])
        (fun hc => h.unsent c (by rw [hanswered]; exact hc))
        (fun c' _ hc' => h.unsent c' (by rw [hanswered]; exact hc'))
      finSent := forall_streams
        (P := fun c' stream => stream.finSent = true ↔ c' ∈ s.closed ++ [c])
        (by simp [ByteStream.finish])
        (fun c' hne => by rw [h.finSent c', hended]; simp [hne])
      ordered := forall_streams (P := fun _ stream => stream.Ordered)
        (h.ordered c).finish (fun c' _ => h.ordered c') }

theorem Serving.serve
    (h : Serving s)
    {fails : Bool}
    (hnext : serve s fails = some t) :
    Serving t := by
  have horder := h.order
  cases hpc : s.pc with
  | accept =>
      rw [hpc] at horder
      simp only [SleepyServer.serve, hpc] at hnext
      split_ifs at hnext
      · cases hnext
        refine h.keep horder h.nodup rfl ?_ ?_
        · simp [answered, hpc]
        · simp [ended, hpc]
      · cases hbacklog : s.backlog with
        | nil =>
            simp [hbacklog] at hnext
        | cons c backlog =>
            rw [hbacklog] at hnext horder
            cases hnext
            refine h.keep ?_ h.nodup rfl ?_ ?_
            · rw [← horder]
              simp [Pc.current]
            · simp [answered, hpc, Pc.answered]
            · simp [ended, hpc, Pc.ended]
  | sleep c =>
      rw [hpc] at horder
      simp only [SleepyServer.serve, hpc, Option.some.injEq] at hnext
      subst hnext
      refine h.keep horder h.nodup rfl ?_ ?_
      · simp [answered, hpc, Pc.answered]
      · simp [ended, hpc, Pc.ended]
  | write c =>
      simp only [SleepyServer.serve, hpc, Option.some.injEq] at hnext
      subst hnext
      exact h.write hpc
  | print c =>
      rw [hpc] at horder
      simp only [SleepyServer.serve, hpc, Option.some.injEq] at hnext
      subst hnext
      refine h.keep horder h.nodup rfl ?_ ?_
      · simp [answered, hpc, Pc.answered]
      · simp [ended, hpc, Pc.ended]
  | shutdown c =>
      simp only [SleepyServer.serve, hpc, Option.some.injEq] at hnext
      subst hnext
      exact h.shutdown hpc
  | close c =>
      rw [hpc] at horder
      simp only [SleepyServer.serve, hpc, Option.some.injEq] at hnext
      subst hnext
      refine h.keep ?_ h.nodup rfl ?_ ?_
      · rw [← horder]
        simp [Pc.current]
      · simp [answered, hpc, Pc.answered]
      · simp [ended, hpc, Pc.ended]

theorem Serving.arrive
    (h : Serving s)
    {c : κ}
    {count : Nat}
    (hnext : arrive s c count = some t) :
    Serving t := by
  obtain ⟨stream, harrive, rfl⟩ := Option.map_eq_some_iff.mp hnext
  obtain ⟨-, hsent, hfin⟩ := ByteStream.arrive_eq_some harrive
  exact h.move hsent hfin ((h.ordered c).arrive harrive)

theorem Serving.read
    (h : Serving s)
    {c : κ}
    {size count : Nat}
    {result : ByteStream.ReadResult}
    (hnext : read s c size count = some (result, t)) :
    Serving t := by
  obtain ⟨⟨result', stream⟩, hread, heq⟩ := Option.map_eq_some_iff.mp hnext
  cases heq
  cases result' with
  | bytes chunk =>
      obtain ⟨-, -, -, hsent, hfin, hflying, harrived⟩ := ByteStream.read_bytes hread
      refine h.move hsent hfin ?_
      rw [ByteStream.Ordered, harrived, hfin, hflying]
      exact h.ordered c
  | endOfFile =>
      obtain ⟨rfl, -, -⟩ := ByteStream.read_endOfFile hread
      exact h.move rfl rfl (h.ordered c)
  | wouldBlock =>
      obtain ⟨rfl, -, -⟩ := ByteStream.read_wouldBlock hread
      exact h.move rfl rfl (h.ordered c)

theorem Serving.next
    (h : Serving s)
    {label : Label κ}
    (hnext : next s label = some t) :
    Serving t := by
  cases label with
  | connect c =>
      exact h.connect hnext
  | serve fails =>
      exact h.serve hnext
  | arrive c count =>
      exact h.arrive hnext
  | read c size count =>
      obtain ⟨⟨result, t'⟩, hread, rfl⟩ := Option.map_eq_some_iff.mp hnext
      exact h.read hread

theorem serving_reachable
    (h : (system κ).Reachable s) :
    Serving s := by
  refine h.invariant ?_ ?_
  · rintro s rfl
    exact serving_listening κ
  · rintro s label t hs ⟨-, hnext⟩
    exact hs.next hnext

/-- What a client has read is the beginning of the response. -/
theorem Serving.taken_isPrefix
    (h : Serving s)
    (c : κ) :
    (s.streams c).taken <+: resp := by
  have hprefix := (s.streams c).taken_isPrefix_sent
  by_cases hc : c ∈ answered s
  · rwa [h.sent c hc] at hprefix
  · rw [h.unsent c hc] at hprefix
    rw [List.prefix_nil.mp hprefix]
    exact List.nil_prefix

/-- A client that is told the end of the stream has read the response. -/
theorem Serving.taken_eq_resp
    (h : Serving s)
    {c : κ}
    {size count : Nat}
    (hread : SleepyServer.read s c size count = some (.endOfFile, t)) :
    (s.streams c).taken = resp := by
  obtain ⟨⟨result, stream⟩, hstream, heq⟩ := Option.map_eq_some_iff.mp hread
  cases heq
  obtain ⟨-, -, hend⟩ := ByteStream.read_endOfFile hstream
  have hended := (h.finSent c).mp ((h.ordered c) hend).1
  rw [(h.ordered c).taken_eq_sent hstream, h.sent c (ended_subset_answered s hended)]

/-- Clients are served in the order in which they have connected, none of them twice and
none left out. A client reads nothing but the beginning of the response, it reads
nothing before it is its turn, and it is told the end of the stream only behind the
whole response. -/
theorem served_in_order
    (κ : Type u)
    [DecidableEq κ]
    (s : Server κ)
    (h : (system κ).Reachable s) :
    s.closed ++ s.pc.current ++ s.backlog = s.connected ∧ s.connected.Nodup ∧
    ∀ c,
      (s.streams c).taken <+: resp ∧
      ((s.streams c).taken ≠ [] → c ∈ s.closed ++ s.pc.current) ∧
      ∀ size count t, read s c size count = some (.endOfFile, t) →
        (s.streams c).taken = resp := by
  have hserving := serving_reachable h
  refine ⟨hserving.order, hserving.nodup, fun c => ⟨hserving.taken_isPrefix c, ?_, ?_⟩⟩
  · intro hsome
    by_contra hwaits
    have hunanswered : c ∉ answered s := by
      intro hc
      rcases List.mem_append.mp hc with hclosed | hcurrent
      · exact hwaits (List.mem_append_left _ hclosed)
      · refine hwaits (List.mem_append_right _ ?_)
        cases hpc : s.pc <;> rw [hpc] at hcurrent <;> first | exact hcurrent | cases hcurrent
    have hprefix := (s.streams c).taken_isPrefix_sent
    rw [hserving.unsent c hunanswered] at hprefix
    exact hsome (List.prefix_nil.mp hprefix)
  · intro size count t hread
    exact hserving.taken_eq_resp hread

/-- The steps of the loop behind the queue of the clients that wait. -/
def Pc.stepsLeft : Pc κ → Nat
  | accept => 0
  | sleep _ => 5
  | write _ => 4
  | print _ => 3
  | shutdown _ => 2
  | close _ => 1

omit [DecidableEq κ] in
/-- How far a server is from having served everyone, and its bytes and the end of its
stream from having arrived at a client. A byte that has arrived counts less than one on
the way, and those count less than the step that writes them. -/
def left
    (c : κ)
    (s : Server κ) :
    Nat :=
  150 * (6 * s.backlog.length + s.pc.stepsLeft) + 6 * (s.streams c).flying.length +
    6 * (!(s.streams c).finArrived).toNat + 5 * (s.streams c).arrived.length

/-- All that a client will ever get has arrived. -/
def Delivered
    (c : κ)
    (s : Server κ) :
    Prop :=
  (s.streams c).flying = [] ∧ (s.streams c).finArrived = true

omit [DecidableEq κ] in
/-- A step of the loop that leaves the streams alone. -/
theorem left_lt_of_streams
    {c : κ}
    (hstreams : t.streams = s.streams)
    (hsteps : 6 * t.backlog.length + t.pc.stepsLeft <
      6 * s.backlog.length + s.pc.stepsLeft) :
    left c t < left c s := by
  simp only [left, hstreams]
  omega

/-- The server goes on as long as somebody is served or waits. -/
theorem exists_serve
    (c : κ)
    (h : s.pc ≠ .accept ∨ s.backlog ≠ []) :
    ∃ t, serve s false = some t ∧ left c t < left c s := by
  cases hpc : s.pc with
  | accept =>
      obtain ⟨c', backlog, hbacklog⟩ :=
        List.exists_cons_of_ne_nil (h.resolve_left fun hne => hne hpc)
      refine ⟨_, by simp only [serve, hpc, hbacklog, Bool.false_eq_true, if_false]; rfl, ?_⟩
      refine left_lt_of_streams rfl ?_
      simp only [hpc, hbacklog, Pc.stepsLeft, List.length_cons]
      omega
  | write c' =>
      refine ⟨_, by simp only [serve, hpc]; rfl, ?_⟩
      have hresp : resp.length = 23 := by decide
      by_cases heq : c = c'
      · subst heq
        simp only [left, hpc, Pc.stepsLeft, Function.update_self, ByteStream.send,
          List.length_append, hresp]
        omega
      · simp only [left, hpc, Pc.stepsLeft, Function.update_of_ne heq]
        omega
  | shutdown c' =>
      refine ⟨_, by simp only [serve, hpc]; rfl, ?_⟩
      by_cases heq : c = c'
      · subst heq
        simp only [left, hpc, Pc.stepsLeft, Function.update_self, ByteStream.finish]
        omega
      · simp only [left, hpc, Pc.stepsLeft, Function.update_of_ne heq]
        omega
  | _ =>
      refine ⟨_, by simp only [serve, hpc]; rfl, ?_⟩
      refine left_lt_of_streams rfl ?_
      simp only [hpc, Pc.stepsLeft]
      omega

/-- What is on the way to a client arrives. -/
theorem exists_arrive
    {c : κ}
    (hfin : (s.streams c).finSent = true)
    (h : ¬ Delivered c s) :
    ∃ count t, arrive s c count = some t ∧ left c t < left c s := by
  by_cases hflying : (s.streams c).flying = []
  · have hend : (s.streams c).finArrived = false := by
      rw [← Bool.not_eq_true]
      exact fun harrived => h ⟨hflying, harrived⟩
    refine ⟨0, _, by simp only [arrive, ByteStream.arrive, if_pos hflying, hfin, hend]; rfl, ?_⟩
    simp [left, hflying, hend]
  · have hpos : 1 ≤ (s.streams c).flying.length := List.length_pos_iff.mpr hflying
    refine ⟨(s.streams c).flying.length, _,
      by simp only [arrive, ByteStream.arrive, if_neg hflying, hpos, Nat.le_refl]; rfl, ?_⟩
    simp only [left, Function.update_self, List.length_append, List.take_length,
      List.drop_length, List.length_nil]
    omega

/-- Someone other than the client has a step that brings it its response. -/
theorem exists_step_of_not_delivered
    (h : Serving s)
    {c : κ}
    (hc : c ∈ s.connected)
    (hnot : ¬ Delivered c s) :
    ∃ t, ((∃ fails, next s (.serve fails) = some t) ∨
      ∃ count, next s (.arrive c count) = some t) ∧ left c t < left c s := by
  by_cases hbusy : s.pc ≠ .accept ∨ s.backlog ≠ []
  · obtain ⟨t, hserve, hlower⟩ := exists_serve c hbusy
    exact ⟨t, Or.inl ⟨false, hserve⟩, hlower⟩
  · push Not at hbusy
    obtain ⟨hpc, hbacklog⟩ := hbusy
    have horder := h.order
    rw [hpc, hbacklog, List.append_nil, Pc.current, List.append_nil] at horder
    have hended : c ∈ ended s := List.mem_append_left _ (by rw [horder]; exact hc)
    obtain ⟨count, t, harrive, hlower⟩ := exists_arrive ((h.finSent c).mpr hended) hnot
    exact ⟨t, Or.inr ⟨count, harrive⟩, hlower⟩

/-- Two clients connect; the first of them is served and reads its response to the end
while the second one waits. -/
def twoClients : List (Label Nat) :=
  [.connect 7, .connect 3] ++ List.replicate 6 (.serve false) ++
    [.arrive 7 23, .arrive 7 0, .read 7 4096 23]

theorem served_in_order_twoClients :
    ∃ s : Server Nat, s.backlog = [3] ∧ (s.streams 7).taken = resp ∧
      s.closed ++ s.pc.current ++ s.backlog = s.connected := by
  have hstart : (system Nat).Reachable (listening Nat) :=
    TransitionSystem.Reachable.init rfl
  have hrun :=
    TransitionSystem.exists_reachable_of_exec
      twoClients
      (fun s => decide (s.backlog = [3] ∧ (s.streams 7).taken = resp))
      hstart
      (by decide +kernel)
      (by decide +kernel)
  obtain ⟨s, hs, htest⟩ := hrun
  obtain ⟨hbacklog, htaken⟩ := of_decide_eq_true htest
  exact ⟨s, hbacklog, htaken, (served_in_order Nat s hs).1⟩

end Serving

end SleepyServer
end Networking
end OsSeminars
