import OsSeminars.Foundation.ScanInt
import OsSeminars.Foundation.Termination
import OsSeminars.Networking.TcpClient
import OsSeminars.Networking.UdpClient

/-!
# Networking: the requests of the two clients

Both clients send a number for every call of `scanf` that does not return `EOF`. A call
without a match stores nothing, so the number of the round before is sent again, and
the text that did not match stays where it is.

A round of either client is a round of one abstract machine: the text that is left, the
number stored last and the numbers sent. That machine sends exactly the numbers of the
text and stops if and only if the text consists of numbers only. A run of the stream
client is a sequence of its rounds, whatever the answers are, and in every state of the
datagram client the text and the numbers sent are those after some round.
-/

namespace OsSeminars
namespace Networking

open Foundation

namespace ScannedRequests

/-- What a client has scanned and sent. -/
structure Requests where
  text : List UInt8
  number : BitVec 32
  sent : List (BitVec 32)

/-- The `int` that a number is stored as. -/
def stored
    (value : Int) :
    BitVec 32 :=
  BitVec.ofInt 32 value

/-- The numbers of the text up to its end or to what is not a number. -/
def scanned
    (text : List UInt8) :
    List (BitVec 32) :=
  (ScanInt.numbers text).map stored

/-- Scan once and, unless the text has ended, send the number. -/
def Requests.round
    (r : Requests) :
    Option Requests :=
  match ScanInt.scanInt r.text with
  | .eof => none
  | .noMatch rest =>
      some { text := rest, number := r.number, sent := r.sent ++ [r.number] }
  | .number value rest =>
      some { text := rest, number := stored value, sent := r.sent ++ [stored value] }

/-- The machine after a number of rounds. -/
def Requests.rounds
    (r : Requests) :
    Nat → Option Requests
  | 0 => some r
  | k + 1 => (r.rounds k).bind Requests.round

/-- In front of the first round. -/
def start
    (text : List UInt8)
    (number : BitVec 32) :
    Requests where
  text := text
  number := number
  sent := []

variable {r t : Requests} {k : Nat}

theorem round_of_noMatch
    {rest : List UInt8}
    (h : ScanInt.scanInt r.text = .noMatch rest) :
    r.round = some { text := rest, number := r.number, sent := r.sent ++ [r.number] } := by
  rw [Requests.round, h]

theorem round_of_number
    {value : Int}
    {rest : List UInt8}
    (h : ScanInt.scanInt r.text = .number value rest) :
    r.round =
      some { text := rest, number := stored value, sent := r.sent ++ [stored value] } := by
  rw [Requests.round, h]

theorem round_eq_none_iff :
    r.round = none ↔ ScanInt.scanInt r.text = .eof := by
  cases h : ScanInt.scanInt r.text <;> simp [Requests.round, h]

theorem rounds_succ_of_some
    (h : r.rounds k = some t) :
    r.rounds (k + 1) = t.round := by
  rw [Requests.rounds, h, Option.bind_some]

theorem rounds_succ_left
    (r : Requests)
    (k : Nat) :
    r.rounds (k + 1) = r.round.bind fun t => t.rounds k := by
  induction k with
  | zero =>
      cases h : r.round <;> simp [Requests.rounds, h]
  | succ k ih =>
      rw [Requests.rounds, ih]
      cases h : r.round <;> simp [Requests.rounds]

/-- A round sends one number. -/
theorem length_sent_of_round
    (h : r.round = some t) :
    t.sent.length = r.sent.length + 1 := by
  cases houtcome : ScanInt.scanInt r.text with
  | eof =>
      rw [round_eq_none_iff.mpr houtcome] at h
      cases h
  | noMatch rest =>
      rw [round_of_noMatch houtcome] at h
      cases h
      exact List.length_append
  | number value rest =>
      rw [round_of_number houtcome] at h
      cases h
      exact List.length_append

theorem length_sent_of_rounds
    (h : r.rounds k = some t) :
    t.sent.length = r.sent.length + k := by
  induction k generalizing t with
  | zero =>
      cases h
      rfl
  | succ k ih =>
      obtain ⟨u, hu, hround⟩ := Option.bind_eq_some_iff.mp h
      rw [length_sent_of_round hround, ih hu, Nat.add_assoc]

theorem scanned_of_eof
    {text : List UInt8}
    (h : ScanInt.scanInt text = .eof) :
    scanned text = [] := by
  rw [scanned, (ScanInt.numbers_of_eof h).1]
  rfl

theorem scanned_of_number
    {text rest : List UInt8}
    {value : Int}
    (h : ScanInt.scanInt text = .number value rest) :
    scanned text = stored value :: scanned rest := by
  rw [scanned, (ScanInt.numbers_of_number h).1]
  rfl

/-- The text left consists of numbers only, and what has been sent together with what is
left is what there was to send. -/
def OnCourse
    (all : List (BitVec 32))
    (r : Requests) :
    Prop :=
  ScanInt.onlyNumbers r.text = true ∧ r.sent ++ scanned r.text = all

theorem OnCourse.round
    {all : List (BitVec 32)}
    (h : OnCourse all r)
    (hround : r.round = some t) :
    OnCourse all t := by
  obtain ⟨honly, hall⟩ := h
  cases houtcome : ScanInt.scanInt r.text with
  | eof =>
      rw [round_eq_none_iff.mpr houtcome] at hround
      cases hround
  | noMatch rest =>
      rw [(ScanInt.numbers_of_noMatch houtcome).2] at honly
      cases honly
  | number value rest =>
      rw [round_of_number houtcome] at hround
      cases hround
      rw [(ScanInt.numbers_of_number houtcome).2] at honly
      refine ⟨honly, ?_⟩
      change (r.sent ++ [stored value]) ++ scanned rest = all
      rw [← hall, scanned_of_number houtcome, List.append_assoc]
      rfl

/-- On course a round sends the first of the numbers left. -/
theorem OnCourse.length_scanned
    {all : List (BitVec 32)}
    (h : OnCourse all r)
    (hround : r.round = some t) :
    (scanned r.text).length = (scanned t.text).length + 1 := by
  have hbefore := congrArg List.length h.2
  have hafter := congrArg List.length (h.round hround).2
  rw [List.length_append] at hbefore hafter
  rw [length_sent_of_round hround] at hafter
  omega

theorem OnCourse.rounds
    {all : List (BitVec 32)}
    (h : OnCourse all r)
    (hrounds : r.rounds k = some t) :
    OnCourse all t := by
  induction k generalizing t with
  | zero =>
      cases hrounds
      exact h
  | succ k ih =>
      obtain ⟨u, hu, hround⟩ := Option.bind_eq_some_iff.mp hrounds
      exact (ih hu).round hround

theorem onCourse_start
    {text : List UInt8}
    (h : ScanInt.onlyNumbers text = true)
    (number : BitVec 32) :
    OnCourse (scanned text) (start text number) :=
  ⟨h, rfl⟩

/-- With numbers only the machine stops. -/
theorem exists_stop
    (h : ScanInt.onlyNumbers r.text = true) :
    ∃ k t, r.rounds k = some t ∧ t.round = none := by
  induction hlength : r.text.length using Nat.strong_induction_on generalizing r with
  | _ n ih =>
      cases houtcome : ScanInt.scanInt r.text with
      | eof =>
          exact ⟨0, r, rfl, round_eq_none_iff.mpr houtcome⟩
      | noMatch rest =>
          rw [(ScanInt.numbers_of_noMatch houtcome).2] at h
          cases h
      | number value rest =>
          have hless := ScanInt.length_lt_of_scanInt houtcome
          rw [(ScanInt.numbers_of_number houtcome).2] at h
          obtain ⟨k, t, hk, ht⟩ := ih rest.length (by omega)
            (r := { text := rest, number := stored value,
                    sent := r.sent ++ [stored value] }) h rfl
          refine ⟨k + 1, t, ?_, ht⟩
          rw [rounds_succ_left, round_of_number houtcome, Option.bind_some, hk]

/-- Without a match the machine takes a round more than there are numbers. -/
theorem isSome_rounds_of_mismatch
    (h : ScanInt.onlyNumbers r.text = false) :
    (r.rounds ((scanned r.text).length + 1)).isSome := by
  induction hlength : r.text.length using Nat.strong_induction_on generalizing r with
  | _ n ih =>
      cases houtcome : ScanInt.scanInt r.text with
      | eof =>
          rw [(ScanInt.numbers_of_eof houtcome).2] at h
          cases h
      | noMatch rest =>
          rw [scanned, (ScanInt.numbers_of_noMatch houtcome).1, rounds_succ_left,
            round_of_noMatch houtcome]
          rfl
      | number value rest =>
          have hless := ScanInt.length_lt_of_scanInt houtcome
          rw [(ScanInt.numbers_of_number houtcome).2] at h
          have hrest := ih rest.length (by omega)
            (r := { text := rest, number := stored value,
                    sent := r.sent ++ [stored value] }) h rfl
          rw [rounds_succ_left, round_of_number houtcome, Option.bind_some,
            scanned_of_number houtcome, List.length_cons]
          exact hrest

/-- The machine stops with exactly the numbers of the text sent if and only if the text
consists of numbers only. -/
theorem stops_with_scanned_iff
    (text : List UInt8)
    (number : BitVec 32) :
    (∃ k t, (start text number).rounds k = some t ∧ t.round = none ∧
      t.sent = scanned text) ↔ ScanInt.onlyNumbers text = true := by
  constructor
  · rintro ⟨k, t, hk, hstop, hsent⟩
    by_contra hmismatch
    rw [Bool.not_eq_true] at hmismatch
    have hmore := isSome_rounds_of_mismatch (r := start text number) hmismatch
    have hlength := length_sent_of_rounds hk
    rw [hsent] at hlength
    have hk' : k = (scanned text).length := by
      rw [hlength]
      exact (Nat.zero_add k).symm
    have hnone : (start text number).rounds ((scanned text).length + 1) = none := by
      rw [← hk', rounds_succ_of_some hk, hstop]
    have hsome : ((start text number).rounds ((scanned text).length + 1)).isSome = true :=
      hmore
    rw [hnone] at hsome
    cases hsome
  · intro honly
    obtain ⟨k, t, hk, hstop⟩ := exists_stop (r := start text number) honly
    obtain ⟨-, hall⟩ := (onCourse_start honly number).rounds hk
    rw [scanned_of_eof (round_eq_none_iff.mp hstop), List.append_nil] at hall
    exact ⟨k, t, hk, hstop, hall⟩

end ScannedRequests

end Networking
end OsSeminars
