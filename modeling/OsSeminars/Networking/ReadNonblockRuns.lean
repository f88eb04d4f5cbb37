import OsSeminars.Networking.ReadNonblock
import Mathlib.Algebra.BigOperators.Fin
import Mathlib.Algebra.Order.BigOperators.Group.Finset

/-!
# `read-nonblock.c`: the client always moves and can always finish

In its loop the client never sleeps: every read returns at once, if only to say that
there is nothing to read. From every point of the loop the servers can serve everyone in
front of the client, and the client then returns `0`, having read both responses.
-/

namespace OsSeminars
namespace Networking
namespace ReadNonblock

open Foundation
open SleepyServer (Server Delivered left)

section Progress

variable {s : State} {i : Fin N}

/-- The steps of the client until it reads an open socket or returns. -/
def untilRead
    (open₀ open₁ : Bool) :
    Pc → Nat
  | .whileOpen => if open₀ then 1 else if open₁ then 2 else 1
  | .forRead 0 => if open₀ then 0 else if open₁ then 1 else 4
  | .forRead 1 => if open₁ then 0 else 3
  | .forRead (_ + 2) => if open₀ then 2 else if open₁ then 3 else 2
  | _ => 0

theorem untilRead_le
    (open₀ open₁ : Bool)
    (pc : Pc) :
    untilRead open₀ open₁ pc ≤ 4 := by
  unfold untilRead
  split <;> (try split_ifs) <;> omega

theorem untilRead_whileOpen
    {open₀ open₁ : Bool}
    (h : open₀ = true ∨ open₁ = true) :
    untilRead open₀ open₁ (.forRead 0) < untilRead open₀ open₁ .whileOpen := by
  rcases h with rfl | rfl
  · cases open₁ <;> decide
  · cases open₀ <;> decide

theorem untilRead_first_closed
    (open₁ : Bool) :
    untilRead false open₁ (.forRead 1) < untilRead false open₁ (.forRead 0) := by
  cases open₁ <;> decide

theorem untilRead_second_closed
    (open₀ : Bool) :
    untilRead open₀ false (.forRead 2) < untilRead open₀ false (.forRead 1) := by
  cases open₀ <;> decide

/-- The socket is open. -/
def isOpen
    (inputFds : Fin N → InputFd)
    (i : Fin N) :
    Bool :=
  inputFds i = .socket

/-- What is left to be done until both sockets are closed. -/
def remaining
    (s : State) :
    Nat :=
  ∑ i, left .self (s.servers i) + 5 * (openSockets s.inputFds).card +
    untilRead (isOpen s.inputFds first) (isOpen s.inputFds second) s.pc

/-- One of the servers has changed. -/
theorem sum_left_update
    (servers : Fin N → Server ClientId)
    (i : Fin N)
    (server : Server ClientId) :
    ∑ j, left .self (Function.update servers i server j) + left .self (servers i) =
      ∑ j, left .self (servers j) + left .self server := by
  have hrest : ∀ j ∈ Finset.univ.erase i,
      left .self (Function.update servers i server j) = left .self (servers j) := by
    intro j hj
    rw [Function.update_of_ne (Finset.ne_of_mem_erase hj)]
  rw [← Finset.add_sum_erase _ _ (Finset.mem_univ i), Finset.sum_congr rfl hrest,
    Function.update_self,
    ← Finset.add_sum_erase _ (fun j => left .self (servers j)) (Finset.mem_univ i)]
  omega

/-- A server brings the client closer to its response. -/
theorem exists_server_step
    (h : Polling s)
    (hloop : s.pc.InLoop)
    (hnot : ¬ Delivered .self (s.servers i)) :
    ∃ label t, next s label = some t ∧ t.pc = s.pc ∧ remaining t < remaining s := by
  have hready : i.val < s.pc.connected := by
    cases hs : s.pc with
    | whileOpen | forRead n =>
        exact i.isLt
    | _ =>
        rw [hs] at hloop
        exact hloop.elim
  obtain ⟨server, hstep, hlower⟩ := SleepyServer.exists_step_of_not_delivered
    (h.serving i) (h.connected i hready) hnot
  have hsum := sum_left_update s.servers i server
  rcases hstep with ⟨fails, hserve⟩ | ⟨count, harrive⟩
  · refine ⟨.server i (.serve fails),
      { s with servers := Function.update s.servers i server },
      by simp only [next, Foreign, if_true, hserve, Option.map_some], rfl, ?_⟩
    simp only [remaining]
    omega
  · refine ⟨.server i (.arrive .self count),
      { s with servers := Function.update s.servers i server },
      by simp only [next, Foreign, if_true, harrive, Option.map_some], rfl, ?_⟩
    simp only [remaining]
    omega

/-- Where a read returns bytes or the end of the stream, it brings the client closer to
its end. -/
theorem exists_readSocket
    (hopen : s.inputFds i = .socket)
    (hdelivered : Delivered .self (s.servers i)) :
    ∃ count t, readSocket s i (.ok count) = some t ∧ t.pc = .forRead (i + 1) ∧
      remaining t < remaining s := by
  have hpc : ∀ o o' : Bool, untilRead o o' (.forRead (i + 1)) ≤ 4 :=
    fun o o' => untilRead_le o o' _
  cases harrived : ((s.servers i).streams .self).arrived with
  | nil =>
      have hread : SleepyServer.read (s.servers i) .self bufSize 0 = some (.endOfFile,
          { s.servers i with
            streams := Function.update (s.servers i).streams .self
              ((s.servers i).streams .self) }) := by
        simp only [SleepyServer.read, ByteStream.read_of_empty harrived, hdelivered.2, if_true,
          Option.map_some]
      refine ⟨0, _, by simp only [readSocket, hread]; rfl, rfl, ?_⟩
      have hsum := sum_left_update s.servers i
        { s.servers i with
          streams := Function.update (s.servers i).streams .self
            ((s.servers i).streams .self) }
      rw [Function.update_eq_self] at hsum
      have hcard := card_openSockets_close hopen
      have huntil := hpc
        (isOpen (Function.update s.inputFds i .minusOne) first)
        (isOpen (Function.update s.inputFds i .minusOne) second)
      simp only [remaining, Function.update_eq_self]
      omega
  | cons x rest =>
      have hread : ((s.servers i).streams .self).read bufSize 1 = some (.bytes [x],
          { (s.servers i).streams .self with
            taken := ((s.servers i).streams .self).taken ++ [x]
            arrived := rest }) := by
        rw [ByteStream.read, if_neg (by rw [harrived]; exact List.cons_ne_nil _ _),
          if_pos ⟨Nat.le_refl 1, by decide, by rw [harrived, List.length_cons]; omega⟩, harrived]
        rfl
      refine ⟨1, _, by simp only [readSocket, SleepyServer.read, hread, Option.map_some]; rfl,
        rfl, ?_⟩
      have hsum := sum_left_update s.servers i
        { s.servers i with
          streams := Function.update (s.servers i).streams .self
            { (s.servers i).streams .self with
              taken := ((s.servers i).streams .self).taken ++ [x]
              arrived := rest } }
      have huntil := hpc (isOpen s.inputFds first) (isOpen s.inputFds second)
      simp only [remaining]
      simp only [left, Function.update_self, harrived, List.length_cons] at hsum ⊢
      omega

/-- In the loop an element of `input_fds` is a socket or `-1`. -/
theorem Polling.inputFd
    (h : Polling s)
    (hloop : s.pc.InLoop)
    (i : Fin N) :
    s.inputFds i = .socket ∨ s.inputFds i = .minusOne := by
  have hpolls : s.pc.Polls := by
    cases hs : s.pc <;> rw [hs] at hloop <;> trivial
  rw [h.closed hpolls i]
  split_ifs
  · exact Or.inr rfl
  · exact Or.inl rfl

theorem isOpen_of_minusOne
    (h : s.inputFds i = .minusOne) :
    isOpen s.inputFds i = false := by
  rw [isOpen, h]
  rfl

/-- Once everything has arrived, the client comes closer to its end by itself. -/
theorem exists_client_step
    (h : Polling s)
    (hloop : s.pc.InLoop)
    (hdelivered : ∀ i, Delivered .self (s.servers i)) :
    ∃ label t, next s label = some t ∧ (t.pc.InLoop ∨ t.pc = .exited 0) ∧
      remaining t < remaining s := by
  have hgoto : ∀ pc : Pc,
      untilRead (isOpen s.inputFds first) (isOpen s.inputFds second) pc <
        untilRead (isOpen s.inputFds first) (isOpen s.inputFds second) s.pc →
      remaining { s with pc := pc } < remaining s := by
    intro pc hlower
    simp only [remaining]
    omega
  cases hpc : s.pc with
  | whileOpen =>
      refine ⟨.client (.ok 0),
        { s with pc := if s.openCount > 0 then .forRead 0 else .exited 0 },
        by simp only [next, clientNext, hpc], ?_, hgoto _ ?_⟩
      · split_ifs
        · exact Or.inl trivial
        · exact Or.inr rfl
      · rw [hpc]
        split_ifs with hopen
        · have hsome : isOpen s.inputFds first = true ∨ isOpen s.inputFds second = true := by
            rw [h.counted hloop] at hopen
            have hcard : 0 < (openSockets s.inputFds).card := Int.ofNat_lt.mp hopen
            obtain ⟨j, hj⟩ := Finset.card_pos.mp hcard
            simp only [openSockets, Finset.mem_filter, Finset.mem_univ, true_and] at hj
            have hcases : j = first ∨ j = second := by
              rcases Fin.exists_fin_two.mp ⟨j, rfl⟩ with rfl | rfl
              · exact Or.inl rfl
              · exact Or.inr rfl
            rcases hcases with rfl | rfl
            · exact Or.inl (by rw [isOpen, hj]; rfl)
            · exact Or.inr (by rw [isOpen, hj]; rfl)
          exact untilRead_whileOpen hsome
        · simp only [untilRead]
          split_ifs <;> omega
  | forRead n =>
      by_cases hn : n < N
      · rcases h.inputFd hloop ⟨n, hn⟩ with hopen | hclosed
        · obtain ⟨count, t, hread, ht, hlower⟩ := exists_readSocket hopen (hdelivered ⟨n, hn⟩)
          refine ⟨.client (.ok count), t, ?_, Or.inl (by rw [ht]; trivial), hlower⟩
          simp only [next, clientNext, hpc, dif_pos hn, hopen, hread]
        · refine ⟨.client (.ok 0), { s with pc := .forRead (n + 1) }, ?_, Or.inl trivial,
            hgoto _ ?_⟩
          · simp only [next, clientNext, hpc, dif_pos hn, hclosed]
          · rw [hpc]
            have hn' : n = 0 ∨ n = 1 := by
              rw [N] at hn
              omega
            rcases hn' with rfl | rfl
            · rw [show isOpen s.inputFds first = false from isOpen_of_minusOne hclosed]
              exact untilRead_first_closed _
            · rw [show isOpen s.inputFds second = false from isOpen_of_minusOne hclosed]
              exact untilRead_second_closed _
      · refine ⟨.client (.ok 0), { s with pc := .whileOpen }, ?_, Or.inl trivial, hgoto _ ?_⟩
        · simp only [next, clientNext, hpc, dif_neg hn]
        · obtain ⟨m, rfl⟩ := Nat.exists_eq_add_of_le' (Nat.not_lt.mp hn)
          rw [hpc]
          simp only [untilRead, N]
          split_ifs <;> omega
  | _ =>
      rw [hpc] at hloop
      exact hloop.elim

/-- A step of the client that waits for nobody. -/
theorem exists_nonblocking_step
    (h : Polling s)
    (hloop : s.pc.InLoop) :
    ∃ count t, next s (.client (.ok count)) = some t := by
  cases hpc : s.pc with
  | whileOpen =>
      exact ⟨0, _, by simp only [next, clientNext, hpc]; rfl⟩
  | forRead n =>
      by_cases hn : n < N
      · rcases h.inputFd hloop ⟨n, hn⟩ with hopen | hclosed
        · cases harrived : ((s.servers ⟨n, hn⟩).streams .self).arrived with
          | nil =>
              refine ⟨0, ?_⟩
              simp only [next, clientNext, hpc, dif_pos hn, hopen, readSocket, SleepyServer.read,
                ByteStream.read_of_empty harrived]
              split_ifs
              · exact ⟨_, rfl⟩
              · exact ⟨_, rfl⟩
          | cons x rest =>
              refine ⟨1, ?_⟩
              simp only [next, clientNext, hpc, dif_pos hn, hopen, readSocket, SleepyServer.read]
              rw [ByteStream.read, if_neg (by rw [harrived]; exact List.cons_ne_nil _ _),
                if_pos ⟨Nat.le_refl 1, by decide, by rw [harrived, List.length_cons]; omega⟩]
              exact ⟨_, rfl⟩
        · exact ⟨0, _, by simp only [next, clientNext, hpc, dif_pos hn, hclosed]; rfl⟩
      · exact ⟨0, _, by simp only [next, clientNext, hpc, dif_neg hn]; rfl⟩
  | _ =>
      rw [hpc] at hloop
      exact hloop.elim

/-- In its loop the client never waits for a server, and whatever has happened before,
it can still read both responses to their ends and return `0`. -/
theorem exists_runs_exited
    (s : State)
    (h : system.Reachable s)
    (hloop : s.pc.InLoop) :
    (∃ count t, next s (.client (.ok count)) = some t) ∧
    ∃ t, system.Runs s t ∧ t.pc = .exited 0 ∧
      ∀ i, received t i = SleepyServer.resp := by
  have hpolling := polling_reachable h
  refine ⟨exists_nonblocking_step hpolling hloop, ?_⟩
  obtain ⟨t, hrun, ⟨ht, -⟩, hexited⟩ :=
    TransitionSystem.exists_runs_of_measure (T := system)
      (I := fun s => system.Reachable s ∧ (s.pc.InLoop ∨ s.pc = .exited 0))
      (P := fun s => s.pc = .exited 0) remaining
      (fun s hs => by
        rcases hs.2 with hloop | hexited
        · have hpolling := polling_reachable hs.1
          by_cases hall : ∀ i, Delivered .self (s.servers i)
          · obtain ⟨label, t, hnext, ht, hlower⟩ := exists_client_step hpolling hloop hall
            exact Or.inr ⟨label, t, ⟨trivial, hnext⟩,
              ⟨TransitionSystem.Reachable.step hs.1 ⟨trivial, hnext⟩, ht⟩, hlower⟩
          · push Not at hall
            obtain ⟨i, hi⟩ := hall
            obtain ⟨label, t, hnext, ht, hlower⟩ := exists_server_step hpolling hloop hi
            exact Or.inr ⟨label, t, ⟨trivial, hnext⟩,
              ⟨TransitionSystem.Reachable.step hs.1 ⟨trivial, hnext⟩,
                Or.inl (by rw [ht]; exact hloop)⟩, hlower⟩
        · exact Or.inl hexited)
      ⟨h, Or.inl hloop⟩
  have hpolling' := polling_reachable ht
  exact ⟨t, hrun, hexited,
    fun i => (hpolling'.reported i).complete (hpolling'.finished hexited i)⟩

/-- Both sockets are connected, and the second loop begins. -/
def connecting : List Label :=
  clientSteps (List.replicate 7 0)

theorem exists_runs_exited_connecting :
    ∃ t, t.pc = .exited 0 ∧ ∀ i, received t i = SleepyServer.resp := by
  have hstart : system.Reachable start :=
    TransitionSystem.Reachable.init rfl
  have hrun :=
    TransitionSystem.exists_reachable_of_exec
      connecting
      (fun s => decide (s.pc = .whileOpen))
      hstart
      (by decide)
      (by decide)
  obtain ⟨s, hs, htest⟩ := hrun
  have hloop : s.pc.InLoop := by
    rw [of_decide_eq_true htest]
    trivial
  obtain ⟨-, t, -, hexited, hreceived⟩ := exists_runs_exited s hs hloop
  exact ⟨t, hexited, hreceived⟩

end Progress

end ReadNonblock
end Networking
end OsSeminars
