import OsSeminars.Foundation.Datagrams
import OsSeminars.Foundation.TransitionSystem

/-!
# `udp-client.c`: requests and answers

The client reads numbers, sends each of them in a datagram to a server and prints
the number in the next datagram that arrives. The server answers a number `x`
with `f x`. Requests and answers carry no sequence number: which answer belongs
to which request follows only from the order in which they arrive.

On a network that duplicates nothing there is at most one datagram on its way, so
delays, reordering and losses do no harm: the number printed is the answer to the
number just sent. A duplicate remains on its way and is taken for the answer to a
later number.
-/

namespace OsSeminars
namespace Networking
namespace UdpClient

open Foundation

/-- An `int`, sent as its four bytes. -/
abbrev Number : Type :=
  BitVec 32

/-- What `scanf("%d", &send_num)` does. -/
inductive ScanResult
  | number (x : Number)
  | noMatch
  | eof
  deriving DecidableEq

/-- The loop of `main`. -/
inductive Pc
  | scanf
  | sendto
  | recvfrom
  | printf
  | close
  | returned
  deriving DecidableEq

structure State where
  sendNum : Number
  recvNum : Number
  pc : Pc
  /-- the numbers passed to `sendto` -/
  sent : List Number
  /-- the numbers printed -/
  printed : List Number
  /-- the datagrams on their way to the server -/
  requests : List Number
  /-- the datagrams on their way to the client -/
  answers : List Number

/-- The client, the server, and the network in both directions. -/
inductive Label
  | scanf (result : ScanResult)
  | client
  | recvfrom (i : Nat)
  | serve (i : Nat)
  | disturbRequests (e : Disturbance)
  | disturbAnswers (e : Disturbance)
  deriving DecidableEq

/-- The state at the head of the loop, with both numbers still undefined. -/
def start
    (sendNum recvNum : Number) :
    State where
  sendNum := sendNum
  recvNum := recvNum
  pc := .scanf
  sent := []
  printed := []
  requests := []
  answers := []

/-- The loop condition `scanf("%d", &send_num) != EOF`. -/
def scanNext
    (s : State)
    (result : ScanResult) :
    Option State :=
  match s.pc with
  | .scanf =>
      match result with
      | .number x => some { s with sendNum := x, pc := .sendto }
      | .noMatch => some { s with pc := .sendto }
      | .eof => some { s with pc := .close }
  | _ => none

/-- The other steps of the client; `recvfrom` waits for a datagram. -/
def clientNext
    (s : State) :
    Option State :=
  match s.pc with
  | .sendto =>
      some { s with
        sent := s.sent ++ [s.sendNum]
        requests := s.requests ++ [s.sendNum]
        pc := .recvfrom }
  | .printf =>
      some { s with
        printed := s.printed ++ [s.recvNum]
        pc := .scanf }
  | .close => some { s with pc := .returned }
  | _ => none

/-- A datagram arrives while the client waits in `recvfrom`. -/
def recvNext
    (s : State)
    (i : Nat) :
    Option State :=
  match s.pc with
  | .recvfrom =>
      (Datagrams.deliver s.answers i).map (fun r =>
        { s with recvNum := r.1, answers := r.2, pc := .printf })
  | _ => none

/-- A request arrives at the server, which answers it. -/
def serverNext
    (f : Number → Number)
    (s : State)
    (i : Nat) :
    Option State :=
  (Datagrams.deliver s.requests i).map (fun r =>
    { s with requests := r.2, answers := s.answers ++ [f r.1] })

def next
    (f : Number → Number)
    (s : State) :
    Label → Option State
  | .scanf result => scanNext s result
  | .client => clientNext s
  | .recvfrom i => recvNext s i
  | .serve i => serverNext f s i
  | .disturbRequests e =>
      (Datagrams.disturb s.requests e).map (fun net => { s with requests := net })
  | .disturbAnswers e =>
      (Datagrams.disturb s.answers e).map (fun net => { s with answers := net })

/-- The network duplicates no datagram. -/
def NoDuplication : Label → Prop
  | .disturbRequests e => e.IsLoss
  | .disturbAnswers e => e.IsLoss
  | _ => True

/-- The client and a server that computes `f`, on a network with a contract. -/
def system
    (f : Number → Number)
    (sendNum recvNum : Number)
    (contract : Label → Prop) :
    TransitionSystem State Label :=
  .ofProgram (fun s => s = start sendNum recvNum) (fun _ a => contract a) (next f)

section Duplication

/-- Requests sent for which nothing has been printed yet. -/
def outstanding : Pc → Nat
  | .recvfrom => 1
  | .printf => 1
  | _ => 0

/-- On any network everything that arrives goes back to a number sent before. -/
structure FromSent
    (f : Number → Number)
    (s : State) :
    Prop where
  requests : ∀ x ∈ s.requests, x ∈ s.sent
  answers : ∀ y ∈ s.answers, ∃ x ∈ s.sent, y = f x
  received : s.pc = .printf → ∃ x ∈ s.sent, s.recvNum = f x
  lengths : s.sent.length = s.printed.length + outstanding s.pc
  printed : ∀ (k : Nat) y, s.printed[k]? = some y →
    ∃ (j : Nat) (x : Number), j ≤ k ∧ s.sent[j]? = some x ∧ y = f x

variable {f : Number → Number} {sendNum recvNum : Number} {s t : State}

theorem fromSent_start
    (f : Number → Number)
    (sendNum recvNum : Number) :
    FromSent f (start sendNum recvNum) where
  requests := fun x hx => by cases hx
  answers := fun y hy => by cases hy
  received := fun h => by cases h
  lengths := rfl
  printed := fun k y h => by cases h

/-- A step that sends nothing and prints nothing. -/
theorem FromSent.keep
    (h : FromSent f s)
    {number : Number}
    {pc : Pc}
    (hlengths : outstanding pc = outstanding s.pc)
    (hpc : pc ≠ .printf) :
    FromSent f { s with sendNum := number, pc := pc } where
  requests := h.requests
  answers := h.answers
  received := fun hprintf => absurd hprintf hpc
  lengths := by
    rw [hlengths]
    exact h.lengths
  printed := h.printed

theorem fromSent_scan
    {result : ScanResult}
    (h : FromSent f s)
    (hnext : scanNext s result = some t) :
    FromSent f t := by
  cases hpc : s.pc with
  | scanf =>
      simp only [scanNext, hpc] at hnext
      cases result with
      | number x =>
          cases hnext
          exact h.keep (by rw [hpc]; rfl) (by simp)
      | noMatch =>
          cases hnext
          exact h.keep (by rw [hpc]; rfl) (by simp)
      | eof =>
          cases hnext
          exact h.keep (by rw [hpc]; rfl) (by simp)
  | _ => simp [scanNext, hpc] at hnext

theorem fromSent_sendto
    (h : FromSent f s)
    (hpc : s.pc = .sendto) :
    FromSent f
      { s with
        sent := s.sent ++ [s.sendNum]
        requests := s.requests ++ [s.sendNum]
        pc := .recvfrom } := by
  have hlengths := h.lengths
  rw [hpc] at hlengths
  refine
    { requests := fun x hx => ?_
      answers := fun y hy => ?_
      received := fun hprintf => by cases hprintf
      lengths := by simpa [outstanding] using hlengths
      printed := fun k y hk => ?_ }
  · rcases List.mem_append.mp hx with hold | hnew
    · exact List.mem_append_left _ (h.requests x hold)
    · exact List.mem_append_right _ hnew
  · obtain ⟨x, hx, rfl⟩ := h.answers y hy
    exact ⟨x, List.mem_append_left _ hx, rfl⟩
  · obtain ⟨j, x, hjk, hj, rfl⟩ := h.printed k y hk
    obtain ⟨hlt, -⟩ := List.getElem?_eq_some_iff.mp hj
    refine ⟨j, x, hjk, ?_, rfl⟩
    dsimp only
    rw [List.getElem?_append_left hlt]
    exact hj

/-- The number printed is the answer to some number sent. -/
theorem fromSent_printf
    (h : FromSent f s)
    (hpc : s.pc = .printf) :
    FromSent f
      { s with
        printed := s.printed ++ [s.recvNum]
        pc := .scanf } := by
  have hlengths := h.lengths
  rw [hpc] at hlengths
  refine
    { requests := h.requests
      answers := h.answers
      received := fun hprintf => by cases hprintf
      lengths := by simpa [outstanding] using hlengths
      printed := fun k y hk => ?_ }
  dsimp only at hk
  rcases Nat.lt_or_ge k s.printed.length with hlt | hge
  · rw [List.getElem?_append_left hlt] at hk
    exact h.printed k y hk
  · obtain ⟨x, hx, hrecv⟩ := h.received hpc
    obtain ⟨j, hj⟩ := List.mem_iff_getElem?.mp hx
    obtain ⟨hlt, -⟩ := List.getElem?_eq_some_iff.mp hj
    rw [List.getElem?_append_right hge] at hk
    obtain ⟨hzero, hy⟩ := List.getElem?_eq_some_iff.mp hk
    simp only [outstanding] at hlengths
    refine ⟨j, x, by omega, hj, ?_⟩
    rw [← hrecv]
    simpa using hy.symm

theorem fromSent_client
    (h : FromSent f s)
    (hnext : clientNext s = some t) :
    FromSent f t := by
  cases hpc : s.pc with
  | sendto =>
      simp only [clientNext, hpc, Option.some.injEq] at hnext
      subst hnext
      exact fromSent_sendto h hpc
  | printf =>
      simp only [clientNext, hpc, Option.some.injEq] at hnext
      subst hnext
      exact fromSent_printf h hpc
  | close =>
      simp only [clientNext, hpc, Option.some.injEq] at hnext
      subst hnext
      exact h.keep (by rw [hpc]; rfl) (by simp)
  | _ => simp [clientNext, hpc] at hnext

theorem fromSent_recv
    {i : Nat}
    (h : FromSent f s)
    (hnext : recvNext s i = some t) :
    FromSent f t := by
  cases hpc : s.pc with
  | recvfrom =>
      simp only [recvNext, hpc] at hnext
      obtain ⟨⟨y, net⟩, hdeliver, rfl⟩ := Option.map_eq_some_iff.mp hnext
      obtain ⟨hmem, hsub⟩ := Datagrams.deliver_eq_some hdeliver
      have hlengths := h.lengths
      rw [hpc] at hlengths
      exact
        { requests := h.requests
          answers := fun y' hy' => h.answers y' (hsub hy')
          received := fun _ => h.answers y hmem
          lengths := hlengths
          printed := h.printed }
  | _ => simp [recvNext, hpc] at hnext

theorem fromSent_server
    {i : Nat}
    (h : FromSent f s)
    (hnext : serverNext f s i = some t) :
    FromSent f t := by
  obtain ⟨⟨x, net⟩, hdeliver, rfl⟩ := Option.map_eq_some_iff.mp hnext
  obtain ⟨hmem, hsub⟩ := Datagrams.deliver_eq_some hdeliver
  refine
    { requests := fun x' hx' => h.requests x' (hsub hx')
      answers := fun y hy => ?_
      received := h.received
      lengths := h.lengths
      printed := h.printed }
  rcases List.mem_append.mp hy with hold | hnew
  · exact h.answers y hold
  · exact ⟨x, h.requests x hmem, List.mem_singleton.mp hnew⟩

theorem fromSent_next
    {a : Label}
    (h : FromSent f s)
    (hnext : next f s a = some t) :
    FromSent f t := by
  cases a with
  | scanf result =>
      exact fromSent_scan h hnext
  | client =>
      exact fromSent_client h hnext
  | recvfrom i =>
      exact fromSent_recv h hnext
  | serve i =>
      exact fromSent_server h hnext
  | disturbRequests e =>
      obtain ⟨net, hnet, rfl⟩ := Option.map_eq_some_iff.mp hnext
      have hsub := Datagrams.disturb_subset hnet
      exact
        { h with requests := fun x hx => h.requests x (hsub hx) }
  | disturbAnswers e =>
      obtain ⟨net, hnet, rfl⟩ := Option.map_eq_some_iff.mp hnext
      have hsub := Datagrams.disturb_subset hnet
      exact
        { h with answers := fun y hy => h.answers y (hsub hy) }

theorem fromSent_of_reachable
    {contract : Label → Prop}
    (h : (system f sendNum recvNum contract).Reachable s) :
    FromSent f s := by
  refine h.invariant (I := FromSent f) ?_ ?_
  · rintro s rfl
    exact fromSent_start f sendNum recvNum
  · rintro s a t hs ⟨-, hnext⟩
    exact fromSent_next hs hnext

end Duplication

section InTurn

/-- At most one datagram is on its way: the last request or its answer. -/
def OneOnItsWay
    (f : Number → Number)
    (x : Number)
    (requests answers : List Number) :
    Prop :=
  (requests = [x] ∧ answers = []) ∨ (requests = [] ∧ answers = [f x]) ∨
    (requests = [] ∧ answers = [])

/-- The numbers printed are the answers to the numbers sent, in the same order. -/
def InTurn
    (f : Number → Number)
    (s : State) :
    Prop :=
  match s.pc with
  | .recvfrom =>
      ∃ earlier x, s.sent = earlier ++ [x] ∧ s.printed = earlier.map f ∧
        OneOnItsWay f x s.requests s.answers
  | .printf =>
      ∃ earlier x, s.sent = earlier ++ [x] ∧ s.printed = earlier.map f ∧
        s.recvNum = f x ∧ s.requests = [] ∧ s.answers = []
  | _ => s.printed = s.sent.map f ∧ s.requests = [] ∧ s.answers = []

variable {f : Number → Number} {sendNum recvNum : Number} {s t : State}

/-- What is printed is a prefix of the answers. -/
theorem InTurn.isPrefix
    (h : InTurn f s) :
    s.printed <+: s.sent.map f := by
  have hpart : ∀ earlier x, s.sent = earlier ++ [x] →
      s.printed = earlier.map f → s.printed <+: s.sent.map f := by
    intro earlier x hsent hprinted
    rw [hsent, hprinted, List.map_append]
    exact List.prefix_append _ _
  cases hpc : s.pc with
  | recvfrom =>
      simp only [InTurn, hpc] at h
      obtain ⟨earlier, x, hsent, hprinted, -⟩ := h
      exact hpart earlier x hsent hprinted
  | printf =>
      simp only [InTurn, hpc] at h
      obtain ⟨earlier, x, hsent, hprinted, -⟩ := h
      exact hpart earlier x hsent hprinted
  | _ =>
      simp only [InTurn, hpc] at h
      exact h.1 ▸ List.prefix_refl _

/-- Outside of `recvfrom` nothing is on its way. -/
theorem InTurn.idle
    (h : InTurn f s)
    (hpc : s.pc ≠ .recvfrom) :
    s.requests = [] ∧ s.answers = [] := by
  cases hs : s.pc with
  | recvfrom =>
      exact absurd hs hpc
  | printf =>
      simp only [InTurn, hs] at h
      obtain ⟨-, -, -, -, -, hnone⟩ := h
      exact hnone
  | _ =>
      simp only [InTurn, hs] at h
      exact h.2

theorem inTurn_scan
    {result : ScanResult}
    (h : InTurn f s)
    (hnext : scanNext s result = some t) :
    InTurn f t := by
  cases hpc : s.pc with
  | scanf =>
      simp only [InTurn, hpc] at h
      simp only [scanNext, hpc] at hnext
      cases result with
      | number x =>
          cases hnext
          exact h
      | noMatch =>
          cases hnext
          exact h
      | eof =>
          cases hnext
          exact h
  | _ => simp [scanNext, hpc] at hnext

theorem inTurn_client
    (h : InTurn f s)
    (hnext : clientNext s = some t) :
    InTurn f t := by
  cases hpc : s.pc with
  | sendto =>
      simp only [InTurn, hpc] at h
      obtain ⟨hprinted, hrequests, hanswers⟩ := h
      simp only [clientNext, hpc, Option.some.injEq] at hnext
      subst hnext
      exact ⟨s.sent, s.sendNum, rfl, hprinted,
        Or.inl ⟨by simp [hrequests], hanswers⟩⟩
  | printf =>
      simp only [InTurn, hpc] at h
      obtain ⟨earlier, x, hsent, hprinted, hrecv, hnone⟩ := h
      simp only [clientNext, hpc, Option.some.injEq] at hnext
      subst hnext
      refine ⟨?_, hnone⟩
      simp [hsent, hprinted, hrecv]
  | close =>
      simp only [InTurn, hpc] at h
      simp only [clientNext, hpc, Option.some.injEq] at hnext
      subst hnext
      exact h
  | _ => simp [clientNext, hpc] at hnext

/-- The one datagram on its way to the client is the answer it waits for. -/
theorem inTurn_recv
    {i : Nat}
    (h : InTurn f s)
    (hnext : recvNext s i = some t) :
    InTurn f t := by
  cases hpc : s.pc with
  | recvfrom =>
      simp only [InTurn, hpc] at h
      obtain ⟨earlier, x, hsent, hprinted, hway⟩ := h
      simp only [recvNext, hpc] at hnext
      obtain ⟨⟨y, net⟩, hdeliver, rfl⟩ := Option.map_eq_some_iff.mp hnext
      rcases hway with ⟨-, hanswers⟩ | ⟨hrequests, hanswers⟩ | ⟨-, hanswers⟩
      · rw [hanswers, Datagrams.deliver_nil] at hdeliver
        cases hdeliver
      · rw [hanswers] at hdeliver
        obtain ⟨rfl, rfl⟩ := Datagrams.deliver_singleton hdeliver
        exact ⟨earlier, x, hsent, hprinted, rfl, hrequests, rfl⟩
      · rw [hanswers, Datagrams.deliver_nil] at hdeliver
        cases hdeliver
  | _ => simp [recvNext, hpc] at hnext

/-- While the client waits, only what is on its way changes. -/
theorem InTurn.onItsWay
    (h : InTurn f s)
    (hpc : s.pc = .recvfrom)
    {requests answers : List Number}
    (hway : ∀ x, OneOnItsWay f x s.requests s.answers →
      OneOnItsWay f x requests answers) :
    InTurn f { s with requests := requests, answers := answers } := by
  simp only [InTurn, hpc] at h ⊢
  obtain ⟨earlier, x, hsent, hprinted, hold⟩ := h
  exact ⟨earlier, x, hsent, hprinted, hway x hold⟩

theorem inTurn_server
    {i : Nat}
    (h : InTurn f s)
    (hnext : serverNext f s i = some t) :
    InTurn f t := by
  obtain ⟨⟨y, net⟩, hdeliver, rfl⟩ := Option.map_eq_some_iff.mp hnext
  by_cases hpc : s.pc = .recvfrom
  · refine h.onItsWay hpc (fun x hway => ?_)
    rcases hway with ⟨hrequests, hanswers⟩ | ⟨hrequests, -⟩ | ⟨hrequests, -⟩
    · rw [hrequests] at hdeliver
      obtain ⟨rfl, rfl⟩ := Datagrams.deliver_singleton hdeliver
      exact Or.inr (Or.inl ⟨rfl, by simp [hanswers]⟩)
    all_goals
      rw [hrequests, Datagrams.deliver_nil] at hdeliver
      cases hdeliver
  · rw [(h.idle hpc).1, Datagrams.deliver_nil] at hdeliver
    cases hdeliver

theorem inTurn_loseRequest
    {e : Disturbance}
    {net : List Number}
    (h : InTurn f s)
    (hloss : e.IsLoss)
    (hnet : Datagrams.disturb s.requests e = some net) :
    InTurn f { s with requests := net } := by
  by_cases hpc : s.pc = .recvfrom
  · refine h.onItsWay hpc (fun x hway => ?_)
    rcases hway with ⟨hrequests, hanswers⟩ | ⟨hrequests, -⟩ | ⟨hrequests, -⟩
    · rw [hrequests] at hnet
      exact Or.inr (Or.inr ⟨Datagrams.lose_singleton hloss hnet, hanswers⟩)
    all_goals
      rw [hrequests, Datagrams.disturb_nil] at hnet
      cases hnet
  · rw [(h.idle hpc).1, Datagrams.disturb_nil] at hnet
    cases hnet

theorem inTurn_loseAnswer
    {e : Disturbance}
    {net : List Number}
    (h : InTurn f s)
    (hloss : e.IsLoss)
    (hnet : Datagrams.disturb s.answers e = some net) :
    InTurn f { s with answers := net } := by
  by_cases hpc : s.pc = .recvfrom
  · refine h.onItsWay hpc (fun x hway => ?_)
    rcases hway with ⟨-, hanswers⟩ | ⟨hrequests, hanswers⟩ | ⟨-, hanswers⟩
    · rw [hanswers, Datagrams.disturb_nil] at hnet
      cases hnet
    · rw [hanswers] at hnet
      exact Or.inr (Or.inr ⟨hrequests, Datagrams.lose_singleton hloss hnet⟩)
    · rw [hanswers, Datagrams.disturb_nil] at hnet
      cases hnet
  · rw [(h.idle hpc).2, Datagrams.disturb_nil] at hnet
    cases hnet

theorem inTurn_next
    {a : Label}
    (h : InTurn f s)
    (hcontract : NoDuplication a)
    (hnext : next f s a = some t) :
    InTurn f t := by
  cases a with
  | scanf result =>
      exact inTurn_scan h hnext
  | client =>
      exact inTurn_client h hnext
  | recvfrom i =>
      exact inTurn_recv h hnext
  | serve i =>
      exact inTurn_server h hnext
  | disturbRequests e =>
      obtain ⟨net, hnet, rfl⟩ := Option.map_eq_some_iff.mp hnext
      exact inTurn_loseRequest h hcontract hnet
  | disturbAnswers e =>
      obtain ⟨net, hnet, rfl⟩ := Option.map_eq_some_iff.mp hnext
      exact inTurn_loseAnswer h hcontract hnet

theorem inTurn_of_reachable
    (h : (system f sendNum recvNum NoDuplication).Reachable s) :
    InTurn f s := by
  refine h.invariant (I := InTurn f) ?_ ?_
  · rintro s rfl
    exact ⟨rfl, rfl, rfl⟩
  · rintro s a t hs ⟨hcontract, hnext⟩
    exact inTurn_next hs hcontract hnext

end InTurn

/-- On a network that delays, reorders and loses datagrams in both directions but
duplicates none, the number printed in turn `k` is the answer to the number sent
in turn `k`; on any network it is the answer to a number sent by then. -/
theorem printed_answers
    (f : Number → Number)
    (sendNum recvNum : Number)
    (s : State) :
    ((system f sendNum recvNum NoDuplication).Reachable s →
      ∀ (k : Nat) y, s.printed[k]? = some y →
        ∃ x, s.sent[k]? = some x ∧ y = f x) ∧
    ((system f sendNum recvNum (fun _ => True)).Reachable s →
      ∀ (k : Nat) y, s.printed[k]? = some y →
        ∃ (j : Nat) (x : Number), j ≤ k ∧ s.sent[j]? = some x ∧ y = f x) := by
  constructor
  · intro h k y hk
    obtain ⟨rest, hrest⟩ := (inTurn_of_reachable h).isPrefix
    obtain ⟨hlt, -⟩ := List.getElem?_eq_some_iff.mp hk
    have hanswer : (s.sent.map f)[k]? = some y := by
      rw [← hrest, List.getElem?_append_left hlt]
      exact hk
    rw [List.getElem?_map] at hanswer
    obtain ⟨x, hx, rfl⟩ := Option.map_eq_some_iff.mp hanswer
    exact ⟨x, hx, rfl⟩
  · intro h
    exact (fromSent_of_reachable h).printed

instance : (a : Label) → Decidable (NoDuplication a)
  | .scanf _ => inferInstanceAs (Decidable True)
  | .client => inferInstanceAs (Decidable True)
  | .recvfrom _ => inferInstanceAs (Decidable True)
  | .serve _ => inferInstanceAs (Decidable True)
  | .disturbRequests e => inferInstanceAs (Decidable e.IsLoss)
  | .disturbAnswers e => inferInstanceAs (Decidable e.IsLoss)

/-- One round for a number: read, send, answer, receive, print. -/
def round
    (x : Number) :
    List Label :=
  [.scanf (.number x), .client, .serve 0, .recvfrom 0, .client]

/-- A server that adds one. -/
def successor
    (x : Number) :
    Number :=
  x + 1

/-- Two rounds, and a third one in which the request is lost. -/
theorem printed_answers_twoRounds :
    ∃ s, (system successor 0 0 NoDuplication).Reachable s ∧
      s.sent = [5, 7, 9] ∧ s.printed = [6, 8] ∧
      ∃ x, s.sent[1]? = some x ∧ (8 : Number) = successor x := by
  have hstart : (system successor 0 0 NoDuplication).Reachable (start 0 0) :=
    .init rfl
  obtain ⟨s, hs, htest⟩ :=
    TransitionSystem.exists_reachable_of_exec
      (round 5 ++ round 7 ++
        [.scanf (.number 9), .client, .disturbRequests (.lose 0)])
      (fun s : State => decide (s.sent = [5, 7, 9] ∧ s.printed = [6, 8]))
      hstart (by decide) (by decide)
  obtain ⟨hsent, hprinted⟩ := of_decide_eq_true htest
  obtain ⟨hinTurn, -⟩ := printed_answers successor 0 0 s
  exact ⟨s, hs, hsent, hprinted, hinTurn hs 1 8 (by rw [hprinted]; rfl)⟩

/-- The answer to the first number is duplicated, and its duplicate is printed as
the answer to the second number. -/
def duplicatedAnswer : List Label :=
  [.scanf (.number 5), .client, .serve 0, .disturbAnswers (.duplicate 0),
    .recvfrom 0, .client, .scanf (.number 7), .client, .recvfrom 0, .client]

theorem not_printed_answers_duplicated :
    ¬ ∀ s, (system successor 0 0 (fun _ => True)).Reachable s →
      ∀ (k : Nat) y, s.printed[k]? = some y →
        ∃ x, s.sent[k]? = some x ∧ y = successor x := by
  intro hall
  have hstart : (system successor 0 0 (fun _ => True)).Reachable (start 0 0) :=
    .init rfl
  obtain ⟨s, hs, htest⟩ :=
    TransitionSystem.exists_reachable_of_exec duplicatedAnswer
      (fun s : State => decide (s.sent = [5, 7] ∧ s.printed = [6, 6]))
      hstart (by decide) (by decide)
  obtain ⟨hsent, hprinted⟩ := of_decide_eq_true htest
  obtain ⟨x, hx, hy⟩ := hall s hs 1 6 (by rw [hprinted]; rfl)
  rw [hsent] at hx
  cases hx
  exact absurd hy (by decide)

end UdpClient
end Networking
end OsSeminars
