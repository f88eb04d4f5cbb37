import OsSeminars.Foundation.TransitionSystem
import OsSeminars.Threads.Server

/-!
# 15-threads: `struct server` as a bounded buffer

A server is used by calls of `write_to_server`, one after another. Each call either
appends its character or returns `-1`. The test for a full server adds one to the length
before it compares. As long as the length does not exceed the capacity, and the capacity
is not the largest `size_t`, this addition does not wrap around, and the test finds
exactly the full server.

At the largest capacity the length would come back to zero.
-/

namespace OsSeminars
namespace Threads
namespace ServerCalls

open Foundation

/-- The server, and the characters passed to `write_to_server` with the values it has
returned. -/
structure State where
  srv : Server
  log : List (UInt8 × Int)

/-- One call of `write_to_server`. -/
def call
    (s : State)
    (data : UInt8) :
    State where
  srv := (writeToServer s.srv data).2
  log := s.log ++ [(data, (writeToServer s.srv data).1)]

/-- Calls of `write_to_server` behind `init_server(cap)`. -/
def system
    (cap : Nat) :
    TransitionSystem State UInt8 :=
  .ofProgram (fun s => s = ⟨initServer cap, []⟩) (fun _ _ => True)
    (fun s data => some (call s data))

/-- The characters whose calls have returned `0`. -/
def accepted
    (log : List (UInt8 × Int)) :
    List UInt8 :=
  (log.filter fun entry => entry.2 = 0).map Prod.fst

/-- The server holds the characters written, and zeros behind them. -/
structure Holds
    (cap : Nat)
    (written : List UInt8)
    (srv : Server) :
    Prop where
  capacity : srv.cap = cap
  len : srv.len = written.length
  fits : written.length ≤ cap
  buf : srv.buf = written ++ List.replicate (cap - written.length) 0

section Calls

variable {cap : Nat} {written : List UInt8} {srv : Server} {s : State}

theorem holds_initServer
    (cap : Nat) :
    Holds cap [] (initServer cap) where
  capacity := rfl
  len := rfl
  fits := Nat.zero_le cap
  buf := rfl

/-- With room for a character the call appends it. -/
theorem Holds.write
    (h : Holds cap written srv)
    (hcap : cap < sizeMod - 1)
    (hroom : written.length < cap)
    (data : UInt8) :
    ∃ t, writeToServer srv data = (0, t) ∧ Holds cap (written ++ [data]) t := by
  have hlen : srv.len < srv.cap := by
    rw [h.len, h.capacity]
    exact hroom
  have hmax : srv.cap < sizeMod := by
    rw [h.capacity]
    omega
  have hlength : (written ++ [data]).length = written.length + 1 := List.length_append
  refine ⟨_, writeToServer_of_room srv data hlen hmax, h.capacity, ?_, ?_, ?_⟩
  · rw [hlength]
    exact congrArg (· + 1) h.len
  · rw [hlength]
    exact hroom
  · change srv.buf.set srv.len data = _
    obtain ⟨room, hsplit⟩ : ∃ room, cap - written.length = room + 1 :=
      ⟨cap - (written.length + 1), by omega⟩
    have hrest : cap - (written ++ [data]).length = room := by
      rw [hlength]
      omega
    rw [h.buf, h.len, hrest, hsplit, List.replicate_succ,
      List.set_append_right _ _ (Nat.le_refl _), Nat.sub_self, List.set_cons_zero,
      List.append_assoc, List.singleton_append]

/-- A full server refuses the character and stays as it is. -/
theorem Holds.refuse
    (h : Holds cap written srv)
    (hcap : cap < sizeMod - 1)
    (hfull : written.length = cap)
    (data : UInt8) :
    writeToServer srv data = (-1, srv) := by
  have hlen : (srv.len + 1) % sizeMod = srv.len + 1 := by
    rw [h.len, Nat.mod_eq_of_lt (by omega)]
  have hgt : (srv.len + 1) % sizeMod > srv.cap := by
    rw [hlen, h.len, h.capacity]
    omega
  rw [writeToServer, if_pos hgt]

/-- What the server holds is what it has accepted, and it has accepted a call exactly
while there was room. -/
structure Bounded
    (cap : Nat)
    (s : State) :
    Prop where
  holds : Holds cap (accepted s.log) s.srv
  length : (accepted s.log).length = min s.log.length cap
  results : ∀ k r, (s.log[k]?).map Prod.snd = some r → (r = 0 ↔ k + 1 ≤ cap)

theorem bounded_start
    (cap : Nat) :
    Bounded cap ⟨initServer cap, []⟩ where
  holds := holds_initServer cap
  length := (Nat.zero_min cap).symm
  results := fun k r h => by cases h

/-- The results of the earlier calls and of the call that follows them. -/
theorem Bounded.results_append
    (h : Bounded cap s)
    {data : UInt8}
    {r : Int}
    (hr : r = 0 ↔ s.log.length + 1 ≤ cap)
    (k : Nat)
    (r' : Int)
    (hk : ((s.log ++ [(data, r)])[k]?).map Prod.snd = some r') :
    r' = 0 ↔ k + 1 ≤ cap := by
  rcases Nat.lt_trichotomy k s.log.length with hlt | rfl | hgt
  · rw [List.getElem?_append_left hlt] at hk
    exact h.results k r' hk
  · rw [List.getElem?_concat_length] at hk
    cases hk
    exact hr
  · rw [List.getElem?_eq_none (by rw [List.length_append, List.length_singleton]; omega)]
      at hk
    cases hk

theorem Bounded.call
    (h : Bounded cap s)
    (hcap : cap < sizeMod - 1)
    (data : UInt8) :
    Bounded cap (call s data) := by
  rcases Nat.lt_or_ge s.log.length cap with hroom | hfull
  · have hlength : (accepted s.log).length < cap := by
      rw [h.length]
      omega
    obtain ⟨t, hwrite, ht⟩ := h.holds.write hcap hlength data
    have haccepted : accepted (s.log ++ [(data, 0)]) = accepted s.log ++ [data] := by
      rw [accepted, List.filter_append, List.map_append]
      rfl
    rw [ServerCalls.call, hwrite]
    refine ⟨?_, ?_, h.results_append (iff_of_true rfl hroom)⟩
    · rw [haccepted]
      exact ht
    · rw [haccepted, List.length_append, List.length_append, h.length,
        List.length_singleton, List.length_singleton]
      omega
  · have hlength : (accepted s.log).length = cap := by
      rw [h.length]
      omega
    have hwrite := h.holds.refuse hcap hlength data
    have haccepted : accepted (s.log ++ [(data, -1)]) = accepted s.log := by
      rw [accepted, List.filter_append, List.map_append]
      exact List.append_nil _
    rw [ServerCalls.call, hwrite]
    refine ⟨?_, ?_, h.results_append (iff_of_false (by simp) (by omega))⟩
    · rw [haccepted]
      exact h.holds
    · rw [haccepted, List.length_append, hlength, List.length_singleton]
      omega

theorem bounded_reachable
    (hcap : cap < sizeMod - 1)
    (h : (system cap).Reachable s) :
    Bounded cap s := by
  refine h.invariant ?_ ?_
  · rintro s rfl
    exact bounded_start cap
  · rintro s data t hs ⟨-, hnext⟩
    cases hnext
    exact hs.call hcap data

/-- In every reachable state the first `len` bytes are the accepted characters and all
bytes behind them are zero. The first `cap` calls return `0` and no later one does, and a
call that returns `-1` changes nothing. -/
theorem server_is_bounded_buffer
    (cap : Nat)
    (s : State)
    (hcap : cap < sizeMod - 1)
    (h : (system cap).Reachable s) :
    s.srv.cap = cap ∧ s.srv.buf.length = cap ∧ s.srv.len ≤ s.srv.cap ∧
    s.srv.buf.take s.srv.len = accepted s.log ∧
    (∀ i, s.srv.len ≤ i → i < s.srv.cap → s.srv.buf[i]? = some 0) ∧
    (∀ k r, (s.log[k]?).map Prod.snd = some r → (r = 0 ↔ k + 1 ≤ cap)) ∧
    (∀ data, (writeToServer s.srv data).1 = -1 → (writeToServer s.srv data).2 = s.srv) := by
  obtain ⟨hholds, hlength, hresults⟩ := bounded_reachable hcap h
  have hfits := hholds.fits
  refine ⟨hholds.capacity, ?_, ?_, ?_, fun i hi hlt => ?_, hresults, fun data hfailed => ?_⟩
  · rw [hholds.buf, List.length_append, List.length_replicate]
    omega
  · rw [hholds.len, hholds.capacity]
    exact hfits
  · rw [hholds.buf, hholds.len, List.take_left]
  · rw [hholds.len] at hi
    rw [hholds.capacity] at hlt
    rw [hholds.buf, List.getElem?_append_right hi, List.getElem?_replicate,
      if_pos (by omega)]
  · rcases Nat.lt_or_eq_of_le hfits with hroom | hfull
    · obtain ⟨t, hwrite, -⟩ := hholds.write hcap hroom data
      rw [hwrite] at hfailed
      cases hfailed
    · rw [hholds.refuse hcap hfull data]

/-- Three calls on a server of capacity two. -/
def afterThree : State :=
  call (call (call ⟨initServer 2, []⟩ 97) 98) 99

theorem reachable_afterThree :
    (system 2).Reachable afterThree := by
  have hstart : (system 2).Reachable ⟨initServer 2, []⟩ := .init rfl
  exact ((hstart.step ⟨trivial, rfl⟩).step ⟨trivial, rfl⟩).step ⟨trivial, rfl⟩

theorem server_is_bounded_buffer_afterThree :
    afterThree.log = [(97, 0), (98, 0), (99, -1)] ∧
    afterThree.srv.buf.take afterThree.srv.len = [97, 98] := by
  obtain ⟨-, -, -, hfirst, -⟩ :=
    server_is_bounded_buffer 2 afterThree (by decide) reachable_afterThree
  have hlog : afterThree.log = [(97, 0), (98, 0), (99, -1)] := by decide
  refine ⟨hlog, ?_⟩
  rw [hfirst, hlog]
  decide

end Calls

end ServerCalls
end Threads
end OsSeminars
