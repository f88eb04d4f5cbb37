import OsSeminars.Networking.ScannedRequests

/-!
# Networking: what `tcp-client.c` and `udp-client.c` send

The loops of the two clients are related to the abstract machine that scans and sends.
With a peer that answers every request the stream client takes its rounds one by one.
The datagram client, its server and the network take several steps for a round, in an
order that is not fixed; here nothing on the network is lost or duplicated.

So both clients send the numbers of the text, each once, and end, if and only if the
text consists of numbers only.
-/

namespace OsSeminars
namespace Networking

open Foundation

namespace TcpClient

open ScannedRequests (Requests scanned)

variable {text : List UInt8} {send : BitVec 32} {recv : Buffer UInt8 4}
variable {answers : Nat → Answer} {s : State} {r : Requests}

/-- The connection takes every number, and some bytes come back. -/
def Answering
    (answers : Nat → Answer) :
    Prop :=
  ∀ k, (answers k).write = .accepted 4 ∧
    ∃ bytes, (answers k).read = .received bytes ∧ bytes ≠ []

/-- The client is where the machine is. -/
structure Shows
    (r : Requests)
    (s : State) :
    Prop where
  text : s.text = r.text
  send : s.send = r.number
  sent : s.sent = r.sent.map intBytes

/-- What follows a call of `scanf` when the peer answers. -/
theorem exists_iteration
    {answer : Answer}
    {s₁ : State}
    (hscan : scanSend s = some s₁)
    (hwrite : answer.write = .accepted 4)
    {bytes : List UInt8}
    (hread : answer.read = .received bytes)
    (hbytes : bytes ≠ []) :
    ∃ s', iteration answer s = .running s' ∧ s'.text = s₁.text ∧ s'.send = s₁.send ∧
      s'.sent = s₁.sent ++ [intBytes s₁.send] := by
  have hall : (intBytes s₁.send).take 4 = intBytes s₁.send :=
    List.take_of_length_le (Nat.le_of_eq (length_intBytes s₁.send))
  rw [iteration, hscan, hwrite, hread]
  simp only [writeSend, readRecv, if_neg hbytes, hall]
  exact ⟨_, rfl, rfl, rfl, rfl⟩

/-- An iteration is a round. -/
theorem Shows.iteration
    {answer : Answer}
    (h : Shows r s)
    (hwrite : answer.write = .accepted 4)
    {bytes : List UInt8}
    (hread : answer.read = .received bytes)
    (hbytes : bytes ≠ []) :
    (r.round = none ∧ iteration answer s = .returned 0 s) ∨
      ∃ t s', r.round = some t ∧ iteration answer s = .running s' ∧ Shows t s' := by
  cases houtcome : ScanInt.scanInt r.text with
  | eof =>
      left
      have hscan : scanSend s = none := by
        rw [scanSend, h.text, houtcome]
      refine ⟨ScannedRequests.round_eq_none_iff.mpr houtcome, ?_⟩
      rw [TcpClient.iteration, hscan]
  | noMatch rest =>
      right
      have hscan : scanSend s = some { s with text := rest } := by
        rw [scanSend, h.text, houtcome]
      obtain ⟨s', hnext, htext, hsend, hsent⟩ :=
        exists_iteration hscan hwrite hread hbytes
      refine ⟨_, s', ScannedRequests.round_of_noMatch houtcome, hnext, htext,
        hsend.trans h.send, ?_⟩
      rw [hsent, h.sent, h.send, List.map_append]
      rfl
  | number value rest =>
      right
      have hscan : scanSend s =
          some { s with text := rest, send := BitVec.ofInt 32 value } := by
        rw [scanSend, h.text, houtcome]
      obtain ⟨s', hnext, htext, hsend, hsent⟩ :=
        exists_iteration hscan hwrite hread hbytes
      refine ⟨_, s', ScannedRequests.round_of_number houtcome, hnext, htext, hsend, ?_⟩
      rw [hsent, h.sent, List.map_append]
      rfl

/-- The loop is behind a round, or it has ended behind the last one. -/
theorem shows_client
    (text : List UInt8)
    (send : BitVec 32)
    (recv : Buffer UInt8 4)
    (hanswers : Answering answers)
    (k : Nat) :
    ∃ j r, (ScannedRequests.start text send).rounds j = some r ∧
      ((j = k ∧ ∃ s, client text send recv answers k = .running s ∧ Shows r s) ∨
        (r.round = none ∧
          ∃ s, client text send recv answers k = .returned 0 s ∧ Shows r s)) := by
  induction k with
  | zero =>
      exact ⟨0, _, rfl, Or.inl ⟨rfl, _, rfl, rfl, rfl, rfl⟩⟩
  | succ k ih =>
      obtain ⟨j, r, hr, ⟨rfl, s, hs, hshows⟩ | ⟨hstop, s, hs, hshows⟩⟩ := ih
      · obtain ⟨hwrite, bytes, hread, hbytes⟩ := hanswers j
        have hnext := LoopState.after_succ_of_running hs
        rcases hshows.iteration hwrite hread hbytes with
          ⟨hstop, hiteration⟩ | ⟨t, s', hround, hiteration, ht⟩
        · exact ⟨j, r, hr, Or.inr ⟨hstop, s, hnext.trans hiteration, hshows⟩⟩
        · refine ⟨j + 1, t, ?_, Or.inl ⟨rfl, s', hnext.trans hiteration, ht⟩⟩
          rw [ScannedRequests.rounds_succ_of_some hr, hround]
      · exact ⟨j, r, hr, Or.inr ⟨hstop, s, LoopState.after_succ_of_returned hs, hshows⟩⟩

/-- The client sends these numbers, in this order and each once, and ends. -/
structure Sends
    (text : List UInt8)
    (send : BitVec 32)
    (recv : Buffer UInt8 4)
    (answers : Nat → Answer)
    (numbers : List (BitVec 32)) :
    Prop where
  inOrder : ∀ k, (stateOf (client text send recv answers k)).sent <+: numbers.map intBytes
  ends : ∃ k s, client text send recv answers k = .returned 0 s ∧
    s.sent = numbers.map intBytes

theorem map_intBytes_inj
    {xs ys : List (BitVec 32)}
    (h : xs.map intBytes = ys.map intBytes) :
    xs = ys := by
  have hinjective : Function.Injective intBytes :=
    Function.LeftInverse.injective intOfBytes_intBytes
  exact List.map_injective_iff.mpr hinjective h

theorem sends_scanned_iff
    (hanswers : Answering answers) :
    Sends text send recv answers (scanned text) ↔ ScanInt.onlyNumbers text = true := by
  have hshows := shows_client text send recv hanswers
  rw [← ScannedRequests.stops_with_scanned_iff text send]
  constructor
  · rintro ⟨-, k, s, hs, hsent⟩
    obtain ⟨j, r, hr, ⟨-, s', hs', -⟩ | ⟨hstop, s', hs', hview⟩⟩ := hshows k
    · rw [hs] at hs'
      cases hs'
    · rw [hs] at hs'
      cases hs'
      exact ⟨j, r, hr, hstop, map_intBytes_inj (hview.sent.symm.trans hsent)⟩
  · intro hstops
    have honly := (ScannedRequests.stops_with_scanned_iff text send).mp hstops
    obtain ⟨n, t, hn, hstop, hsent⟩ := hstops
    refine ⟨fun k => ?_, n + 1, ?_⟩
    · obtain ⟨j, r, hr, hclient⟩ := hshows k
      obtain ⟨-, hall⟩ := (ScannedRequests.onCourse_start honly send).rounds hr
      have hbegins : r.sent.map intBytes <+: (scanned text).map intBytes := by
        rw [← hall, List.map_append]
        exact List.prefix_append _ _
      rcases hclient with ⟨-, s, hs, hview⟩ | ⟨-, s, hs, hview⟩
      · rw [hs]
        change s.sent <+: _
        rw [hview.sent]
        exact hbegins
      · rw [hs]
        change s.sent <+: _
        rw [hview.sent]
        exact hbegins
    · obtain ⟨j, r, hr, ⟨rfl, -⟩ | ⟨hstop', s, hs, hview⟩⟩ := hshows (n + 1)
      · rw [ScannedRequests.rounds_succ_of_some hn, hstop] at hr
        cases hr
      · obtain ⟨-, hall⟩ := (ScannedRequests.onCourse_start honly send).rounds hr
        rw [ScannedRequests.scanned_of_eof (ScannedRequests.round_eq_none_iff.mp hstop'),
          List.append_nil] at hall
        exact ⟨s, hs, by rw [hview.sent, hall]⟩

end TcpClient

namespace UdpClient

open ScannedRequests (Requests scanned stored)

/-- What the next call of `scanf` returns, and the text it leaves. -/
def scanText
    (text : List UInt8) :
    ScanResult × List UInt8 :=
  match ScanInt.scanInt text with
  | .eof => (.eof, text)
  | .noMatch rest => (.noMatch, rest)
  | .number value rest => (.number (stored value), rest)

/-- A step together with the standard input, which only `scanf` reads. -/
def textNext
    (f : Number → Number)
    (p : State × List UInt8) :
    Label → Option (State × List UInt8)
  | .scanf result =>
      if result = (scanText p.2).1 then
        (scanNext p.1 result).map fun s => (s, (scanText p.2).2)
      else none
  | a => (next f p.1 a).map fun s => (s, p.2)

/-- Every datagram arrives, and arrives once. -/
def Undisturbed : Label → Prop
  | .disturbRequests _ => False
  | .disturbAnswers _ => False
  | _ => True

/-- The client with a text on its standard input and a server that answers. -/
def textSystem
    (f : Number → Number)
    (text : List UInt8)
    (sendNum recvNum : Number) :
    TransitionSystem (State × List UInt8) Label :=
  .ofProgram (fun p => p = (start sendNum recvNum, text)) (fun _ a => Undisturbed a)
    (textNext f)

variable {f : Number → Number} {text : List UInt8} {sendNum recvNum : Number}
variable {p q : State × List UInt8} {r : Requests}

/-- The numbers that have left the client, with the one it is about to send. -/
def leaving
    (s : State) :
    List Number :=
  if s.pc = .sendto then s.sent ++ [s.sendNum] else s.sent

/-- How many datagrams are on their way. -/
def onWay
    (s : State) :
    Nat :=
  s.requests.length + s.answers.length

/-- The client is inside or behind the round of the machine. -/
structure Shows
    (r : Requests)
    (p : State × List UInt8) :
    Prop where
  text : p.2 = r.text
  number : p.1.sendNum = r.number
  sent : leaving p.1 = r.sent
  ended : p.1.pc = .close ∨ p.1.pc = .returned → r.round = none
  waiting : onWay p.1 = if p.1.pc = .recvfrom then 1 else 0

theorem shows_start :
    Shows (ScannedRequests.start text sendNum) (start sendNum recvNum, text) where
  text := rfl
  number := rfl
  sent := rfl
  ended := fun h => by rcases h with h | h <;> cases h
  waiting := rfl

/-- Outside of `sendto` and `recvfrom` nothing is on its way, and all numbers have been
sent. -/
theorem Shows.idle
    {s : State}
    (h : Shows r (s, text))
    (hsendto : s.pc ≠ .sendto)
    (hrecvfrom : s.pc ≠ .recvfrom) :
    s.sent = r.sent ∧ onWay s = 0 := by
  have hsent := h.sent
  have hwaiting := h.waiting
  rw [leaving, if_neg hsendto] at hsent
  rw [if_neg hrecvfrom] at hwaiting
  exact ⟨hsent, hwaiting⟩

/-- A call of `scanf` is a round, or finds the end of the text. -/
theorem Shows.scanf
    {result : ScanResult}
    (h : Shows r p)
    (hnext : textNext f p (.scanf result) = some q) :
    (r.round = none ∧ q.1.pc = .close ∧ Shows r q) ∨
      ∃ t, r.round = some t ∧ q.1.pc = .sendto ∧ Shows t q := by
  obtain ⟨s, text⟩ := p
  simp only [textNext] at hnext
  split_ifs at hnext with hresult
  obtain ⟨s', hscan, rfl⟩ := Option.map_eq_some_iff.mp hnext
  have htext : text = r.text := h.text
  cases hpc : s.pc with
  | scanf =>
      obtain ⟨hsent, hwaiting⟩ := h.idle (by rw [hpc]; decide) (by rw [hpc]; decide)
      cases houtcome : ScanInt.scanInt text with
      | eof =>
          left
          have hend : scanText text = (.eof, text) := by rw [scanText, houtcome]
          have hround : r.round = none := by
            rw [ScannedRequests.round_eq_none_iff, ← htext, houtcome]
          rw [hend] at hresult ⊢
          rw [hresult, scanNext, hpc] at hscan
          cases hscan
          exact ⟨hround, rfl, htext, h.number, hsent, fun _ => hround, hwaiting⟩
      | noMatch rest =>
          right
          have hrest : scanText text = (.noMatch, rest) := by rw [scanText, houtcome]
          have hround := ScannedRequests.round_of_noMatch (htext ▸ houtcome)
          rw [hrest] at hresult ⊢
          rw [hresult, scanNext, hpc] at hscan
          cases hscan
          refine ⟨_, hround, rfl, rfl, h.number, ?_, ?_, hwaiting⟩
          · change s.sent ++ [s.sendNum] = r.sent ++ [r.number]
            rw [hsent, ← h.number]
          · rintro (hend | hend) <;> cases hend
      | number value rest =>
          right
          have hrest : scanText text = (.number (stored value), rest) := by
            rw [scanText, houtcome]
          have hround := ScannedRequests.round_of_number (htext ▸ houtcome)
          rw [hrest] at hresult ⊢
          rw [hresult, scanNext, hpc] at hscan
          cases hscan
          refine ⟨_, hround, rfl, rfl, rfl, ?_, ?_, hwaiting⟩
          · change s.sent ++ [stored value] = r.sent ++ [stored value]
            rw [hsent]
          · rintro (hend | hend) <;> cases hend
  | _ => simp [scanNext, hpc] at hscan

/-- The steps of the client between two calls of `scanf`. -/
theorem Shows.client
    (h : Shows r p)
    (hnext : textNext f p .client = some q) :
    Shows r q := by
  obtain ⟨s, text⟩ := p
  obtain ⟨s', hclient, rfl⟩ := Option.map_eq_some_iff.mp hnext
  simp only [next] at hclient
  have hnumber : s.sendNum = r.number := h.number
  cases hpc : s.pc with
  | sendto =>
      have hsent := h.sent
      have hwaiting := h.waiting
      rw [leaving, if_pos hpc] at hsent
      rw [if_neg (by rw [hpc]; decide)] at hwaiting
      simp only [clientNext, hpc, Option.some.injEq] at hclient
      subst hclient
      refine ⟨h.text, hnumber, hsent, ?_, ?_⟩
      · rintro (hend | hend) <;> cases hend
      · simp only [onWay, List.length_append, List.length_singleton] at hwaiting ⊢
        rw [if_pos trivial]
        omega
  | printf =>
      obtain ⟨hsent, hwaiting⟩ := h.idle (by rw [hpc]; decide) (by rw [hpc]; decide)
      simp only [clientNext, hpc, Option.some.injEq] at hclient
      subst hclient
      refine ⟨h.text, hnumber, hsent, ?_, hwaiting⟩
      rintro (hend | hend) <;> cases hend
  | close =>
      obtain ⟨hsent, hwaiting⟩ := h.idle (by rw [hpc]; decide) (by rw [hpc]; decide)
      simp only [clientNext, hpc, Option.some.injEq] at hclient
      subst hclient
      exact ⟨h.text, hnumber, hsent, fun _ => h.ended (Or.inl hpc), hwaiting⟩
  | _ => simp [clientNext, hpc] at hclient

/-- The answer arrives. -/
theorem Shows.recvfrom
    {i : Nat}
    (h : Shows r p)
    (hnext : textNext f p (.recvfrom i) = some q) :
    Shows r q := by
  obtain ⟨s, text⟩ := p
  obtain ⟨s', hrecv, rfl⟩ := Option.map_eq_some_iff.mp hnext
  simp only [next] at hrecv
  cases hpc : s.pc with
  | recvfrom =>
      have hsent := h.sent
      have hwaiting := h.waiting
      rw [leaving, if_neg (by rw [hpc]; decide)] at hsent
      rw [if_pos hpc] at hwaiting
      simp only [recvNext, hpc] at hrecv
      obtain ⟨⟨y, net⟩, hdeliver, rfl⟩ := Option.map_eq_some_iff.mp hrecv
      have hless := Datagrams.length_of_deliver hdeliver
      refine ⟨h.text, h.number, hsent, ?_, ?_⟩
      · rintro (hend | hend) <;> cases hend
      · simp only [onWay] at hwaiting ⊢
        rw [if_neg (by decide)]
        omega
  | _ => simp [recvNext, hpc] at hrecv

/-- The server takes a request from the network and puts an answer onto it. -/
theorem Shows.serve
    {i : Nat}
    (h : Shows r p)
    (hnext : textNext f p (.serve i) = some q) :
    Shows r q := by
  obtain ⟨s, text⟩ := p
  obtain ⟨s', hserve, rfl⟩ := Option.map_eq_some_iff.mp hnext
  obtain ⟨⟨x, net⟩, hdeliver, rfl⟩ := Option.map_eq_some_iff.mp hserve
  have hless : s.requests.length = net.length + 1 := Datagrams.length_of_deliver hdeliver
  refine ⟨h.text, h.number, h.sent, h.ended, ?_⟩
  rw [← h.waiting]
  simp only [onWay, List.length_append, List.length_singleton]
  omega

/-- Every step of the system is a round of the machine or a part of one. -/
theorem Shows.step
    {a : Label}
    (h : Shows r p)
    (hcontract : Undisturbed a)
    (hnext : textNext f p a = some q) :
    Shows r q ∨ ∃ t, r.round = some t ∧ Shows t q := by
  cases a with
  | scanf result =>
      rcases h.scanf hnext with ⟨-, -, hq⟩ | ⟨t, ht, -, hq⟩
      · exact Or.inl hq
      · exact Or.inr ⟨t, ht, hq⟩
  | client =>
      exact Or.inl (h.client hnext)
  | recvfrom i =>
      exact Or.inl (h.recvfrom hnext)
  | serve i =>
      exact Or.inl (h.serve hnext)
  | disturbRequests e =>
      exact absurd hcontract id
  | disturbAnswers e =>
      exact absurd hcontract id

theorem shows_reachable
    (h : (textSystem f text sendNum recvNum).Reachable p) :
    ∃ k r, (ScannedRequests.start text sendNum).rounds k = some r ∧ Shows r p := by
  refine h.invariant
    (I := fun p => ∃ k r, (ScannedRequests.start text sendNum).rounds k = some r ∧
      Shows r p) ?_ ?_
  · rintro p rfl
    exact ⟨0, _, rfl, shows_start⟩
  · rintro p a q ⟨k, r, hr, hp⟩ ⟨hcontract, hnext⟩
    rcases hp.step hcontract hnext with hq | ⟨t, ht, hq⟩
    · exact ⟨k, r, hr, hq⟩
    · exact ⟨k + 1, t, by rw [ScannedRequests.rounds_succ_of_some hr, ht], hq⟩

/-- Until the program has returned, some process can take a step. -/
theorem Shows.exists_step
    (f : Number → Number)
    (h : Shows r p)
    (hpc : p.1.pc ≠ .returned) :
    ∃ a q, Undisturbed a ∧ textNext f p a = some q := by
  obtain ⟨s, text⟩ := p
  cases hs : s.pc with
  | scanf =>
      refine ⟨.scanf (scanText text).1, ?_⟩
      cases hresult : (scanText text).1 <;>
        simp [textNext, scanNext, hs, hresult, Undisturbed]
  | recvfrom =>
      have hwaiting := h.waiting
      rw [if_pos hs] at hwaiting
      cases hrequests : s.requests with
      | cons x requests =>
          exact ⟨.serve 0, _, trivial,
            by simp only [textNext, next, serverNext, Datagrams.deliver, hrequests]; rfl⟩
      | nil =>
          cases hanswers : s.answers with
          | cons y net =>
              exact ⟨.recvfrom 0, _, trivial,
                by simp only [textNext, next, recvNext, hs, Datagrams.deliver, hanswers]; rfl⟩
          | nil =>
              simp [onWay, hrequests, hanswers] at hwaiting
  | returned =>
      exact absurd hs hpc
  | _ =>
      exact ⟨.client, _, trivial, by simp only [textNext, next, clientNext, hs]; rfl⟩

/-- The steps that remain in a round. -/
def weight : Pc → Nat
  | .scanf => 2
  | .sendto => 7
  | .recvfrom => 5
  | .printf => 4
  | .close => 1
  | .returned => 0

/-- A bound for the steps that remain when the text consists of numbers only. -/
def remaining
    (p : State × List UInt8) :
    Nat :=
  6 * (scanned p.2).length + weight p.1.pc + p.1.requests.length

theorem remaining_scanf
    {all : List Number}
    {result : ScanResult}
    (hcourse : ScannedRequests.OnCourse all r)
    (h : Shows r p)
    (hnext : textNext f p (.scanf result) = some q) :
    remaining q < remaining p := by
  have hpc : p.1.pc = .scanf := by
    simp only [textNext] at hnext
    split_ifs at hnext
    obtain ⟨s, hscan, -⟩ := Option.map_eq_some_iff.mp hnext
    cases hpc : p.1.pc with
    | scanf => rfl
    | _ => simp [scanNext, hpc] at hscan
  have hwaiting := h.waiting
  rw [if_neg (by rw [hpc]; decide), onWay] at hwaiting
  rcases h.scanf hnext with ⟨-, hq, hshows⟩ | ⟨t, ht, hq, hshows⟩
  · have hway := hshows.waiting
    rw [if_neg (by rw [hq]; decide), onWay] at hway
    rw [remaining, remaining, hpc, hq, h.text, hshows.text]
    simp only [weight]
    omega
  · have hway := hshows.waiting
    rw [if_neg (by rw [hq]; decide), onWay] at hway
    have hlength := hcourse.length_scanned ht
    rw [remaining, remaining, hpc, hq, h.text, hshows.text]
    simp only [weight]
    omega

theorem remaining_client
    (hnext : textNext f p .client = some q) :
    remaining q < remaining p := by
  obtain ⟨s, text⟩ := p
  obtain ⟨s', hclient, rfl⟩ := Option.map_eq_some_iff.mp hnext
  simp only [next] at hclient
  cases hpc : s.pc with
  | sendto =>
      simp only [clientNext, hpc, Option.some.injEq] at hclient
      subst hclient
      simp only [remaining, hpc, weight, List.length_append, List.length_singleton]
      omega
  | printf =>
      simp only [clientNext, hpc, Option.some.injEq] at hclient
      subst hclient
      simp only [remaining, hpc, weight]
      omega
  | close =>
      simp only [clientNext, hpc, Option.some.injEq] at hclient
      subst hclient
      simp only [remaining, hpc, weight]
      omega
  | _ => simp [clientNext, hpc] at hclient

theorem remaining_recvfrom
    {i : Nat}
    (hnext : textNext f p (.recvfrom i) = some q) :
    remaining q < remaining p := by
  obtain ⟨s, text⟩ := p
  obtain ⟨s', hrecv, rfl⟩ := Option.map_eq_some_iff.mp hnext
  simp only [next] at hrecv
  cases hpc : s.pc with
  | recvfrom =>
      simp only [recvNext, hpc] at hrecv
      obtain ⟨⟨y, net⟩, -, rfl⟩ := Option.map_eq_some_iff.mp hrecv
      simp only [remaining, hpc, weight]
      omega
  | _ => simp [recvNext, hpc] at hrecv

theorem remaining_serve
    {i : Nat}
    (hnext : textNext f p (.serve i) = some q) :
    remaining q < remaining p := by
  obtain ⟨s, text⟩ := p
  obtain ⟨s', hserve, rfl⟩ := Option.map_eq_some_iff.mp hnext
  obtain ⟨⟨x, net⟩, hdeliver, rfl⟩ := Option.map_eq_some_iff.mp hserve
  have hless : s.requests.length = net.length + 1 := Datagrams.length_of_deliver hdeliver
  simp only [remaining]
  omega

/-- With numbers only every step brings the end nearer. -/
theorem remaining_lt
    {all : List Number}
    {a : Label}
    (hcourse : ScannedRequests.OnCourse all r)
    (h : Shows r p)
    (hcontract : Undisturbed a)
    (hnext : textNext f p a = some q) :
    remaining q < remaining p := by
  cases a with
  | scanf result =>
      exact remaining_scanf hcourse h hnext
  | client =>
      exact remaining_client hnext
  | recvfrom i =>
      exact remaining_recvfrom hnext
  | serve i =>
      exact remaining_serve hnext
  | disturbRequests e =>
      exact absurd hcontract id
  | disturbAnswers e =>
      exact absurd hcontract id

/-- The client sends these numbers, in this order and each once, and every run ends, with
the program returned. -/
structure Sends
    (f : Number → Number)
    (text : List UInt8)
    (sendNum recvNum : Number)
    (numbers : List Number) :
    Prop where
  inOrder : ∀ p, (textSystem f text sendNum recvNum).Reachable p → p.1.sent <+: numbers
  terminates : Terminates (fun p q => ∃ a, (textSystem f text sendNum recvNum).step p a q)
    (start sendNum recvNum, text)
  ends : ∀ p, (textSystem f text sendNum recvNum).Reachable p →
    (∀ a, ¬(textSystem f text sendNum recvNum).Enabled p a) →
      p.1.pc = .returned ∧ p.1.sent = numbers

/-- A run that cannot be infinite reaches a state without a step. -/
theorem exists_stuck
    (h : Terminates (fun p q => ∃ a, (textSystem f text sendNum recvNum).step p a q)
      (start sendNum recvNum, text)) :
    ∃ p, (textSystem f text sendNum recvNum).Reachable p ∧
      ∀ a, ¬(textSystem f text sendNum recvNum).Enabled p a := by
  by_contra hnone
  refine h (diverges_of_progress (I := (textSystem f text sendNum recvNum).Reachable) ?_
    (.init rfl))
  intro p hp
  by_contra hstuck
  refine hnone ⟨p, hp, fun a hstep => hstuck ?_⟩
  obtain ⟨q, hq⟩ := hstep
  exact ⟨q, ⟨a, hq⟩, hp.step hq⟩

theorem sends_scanned_iff :
    Sends f text sendNum recvNum (scanned text) ↔ ScanInt.onlyNumbers text = true := by
  constructor
  · intro h
    obtain ⟨p, hp, hstuck⟩ := exists_stuck h.terminates
    obtain ⟨hpc, hsent⟩ := h.ends p hp hstuck
    obtain ⟨k, r, hr, hshows⟩ := shows_reachable hp
    have hleaving := hshows.sent
    rw [leaving, if_neg (by rw [hpc]; decide), hsent] at hleaving
    rw [← ScannedRequests.stops_with_scanned_iff text sendNum]
    exact ⟨k, r, hr, hshows.ended (Or.inr hpc), hleaving.symm⟩
  · intro honly
    have hcourse := ScannedRequests.onCourse_start honly sendNum
    refine ⟨fun p hp => ?_, ?_, fun p hp hstuck => ?_⟩
    · obtain ⟨k, r, hr, hshows⟩ := shows_reachable hp
      have hsent : p.1.sent <+: r.sent := by
        rw [← hshows.sent, leaving]
        split_ifs
        · exact List.prefix_append _ _
        · exact List.prefix_refl _
      refine hsent.trans ?_
      rw [← (hcourse.rounds hr).2]
      exact List.prefix_append _ _
    · refine terminates_of_measure
        (I := (textSystem f text sendNum recvNum).Reachable) remaining ?_ ?_ (.init rfl)
      · rintro p q hp ⟨a, hstep⟩
        exact hp.step hstep
      · rintro p q hp ⟨a, hcontract, hnext⟩
        obtain ⟨k, r, hr, hshows⟩ := shows_reachable hp
        exact remaining_lt (hcourse.rounds hr) hshows hcontract hnext
    · obtain ⟨k, r, hr, hshows⟩ := shows_reachable hp
      have hpc : p.1.pc = .returned := by
        by_contra hpc
        obtain ⟨a, q, hcontract, hnext⟩ := hshows.exists_step f hpc
        exact hstuck a ⟨q, hcontract, hnext⟩
      have hstop := hshows.ended (Or.inr hpc)
      have hall := (hcourse.rounds hr).2
      rw [ScannedRequests.scanned_of_eof (ScannedRequests.round_eq_none_iff.mp hstop),
        List.append_nil] at hall
      have hleaving := hshows.sent
      rw [leaving, if_neg (by rw [hpc]; decide)] at hleaving
      exact ⟨hpc, hleaving.trans hall⟩

end UdpClient

section Clients

open ScannedRequests (scanned)

/-- Both clients send exactly the numbers that repeated scanning yields, each once, and
end, if and only if scanning reaches the end of the text without a mismatch. -/
theorem clients_send_scanned_iff
    (text : List UInt8)
    (send : BitVec 32)
    (recv : Buffer UInt8 4)
    (answers : Nat → TcpClient.Answer)
    (f : BitVec 32 → BitVec 32)
    (sendNum recvNum : BitVec 32)
    (hanswers : TcpClient.Answering answers) :
    (TcpClient.Sends text send recv answers (scanned text) ↔
      ScanInt.onlyNumbers text = true) ∧
    (UdpClient.Sends f text sendNum recvNum (scanned text) ↔
      ScanInt.onlyNumbers text = true) :=
  ⟨TcpClient.sends_scanned_iff hanswers, UdpClient.sends_scanned_iff⟩

/-- A peer that answers every request with zero. -/
def zeroAnswers : Nat → TcpClient.Answer :=
  fun _ => { write := .accepted 4, read := .received [0, 0, 0, 0] }

theorem answering_zeroAnswers :
    TcpClient.Answering zeroAnswers :=
  fun _ => ⟨rfl, _, rfl, List.cons_ne_nil _ _⟩

/-- The text `"7 -2\n"`. -/
theorem clients_send_scanned_iff_twoNumbers :
    scanned [55, 32, 45, 50, 10] = [7, -2] ∧
    TcpClient.Sends [55, 32, 45, 50, 10] 0 TcpClient.zeroRecv zeroAnswers [7, -2] ∧
    UdpClient.Sends id [55, 32, 45, 50, 10] 0 0 [7, -2] := by
  have hfirst : ScanInt.scanInt [55, 32, 45, 50, 10] = .number 7 [32, 45, 50, 10] := by
    decide
  have hsecond : ScanInt.scanInt [32, 45, 50, 10] = .number (-2) [10] := by decide
  have hend : ScanInt.scanInt [10] = .eof := by decide
  have honly : ScanInt.onlyNumbers [55, 32, 45, 50, 10] = true := by
    rw [(ScanInt.numbers_of_number hfirst).2, (ScanInt.numbers_of_number hsecond).2,
      (ScanInt.numbers_of_eof hend).2]
  have hscanned : scanned [55, 32, 45, 50, 10] = [7, -2] := by
    rw [ScannedRequests.scanned_of_number hfirst, ScannedRequests.scanned_of_number hsecond,
      ScannedRequests.scanned_of_eof hend]
    rfl
  have hclients := clients_send_scanned_iff [55, 32, 45, 50, 10] 0 TcpClient.zeroRecv
    zeroAnswers id 0 0 answering_zeroAnswers
  rw [hscanned] at hclients
  exact ⟨hscanned, hclients.1.mpr honly, hclients.2.mpr honly⟩

/-- In the text `"7 x"` neither client sends the number once and ends. -/
theorem not_clients_send_scanned_letter :
    scanned [55, 32, 120] = [7] ∧
    ¬TcpClient.Sends [55, 32, 120] 0 TcpClient.zeroRecv zeroAnswers [7] ∧
    ¬UdpClient.Sends id [55, 32, 120] 0 0 [7] := by
  have hfirst : ScanInt.scanInt [55, 32, 120] = .number 7 [32, 120] := by decide
  have hletter : ScanInt.scanInt [32, 120] = .noMatch [120] := by decide
  have honly : ¬ScanInt.onlyNumbers [55, 32, 120] = true := by
    rw [(ScanInt.numbers_of_number hfirst).2, (ScanInt.numbers_of_noMatch hletter).2]
    decide
  have hscanned : scanned [55, 32, 120] = [7] := by
    rw [ScannedRequests.scanned_of_number hfirst, scanned,
      (ScanInt.numbers_of_noMatch hletter).1]
    rfl
  refine ⟨hscanned, ?_, ?_⟩
  · rw [← hscanned, TcpClient.sends_scanned_iff answering_zeroAnswers]
    exact honly
  · rw [← hscanned, UdpClient.sends_scanned_iff]
    exact honly

end Clients

end Networking
end OsSeminars
