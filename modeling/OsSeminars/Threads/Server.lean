import OsSeminars.Foundation.MachineInt
import Mathlib.Data.List.Basic

/-!
# 15-threads: `struct server`

The programs `mutex-example.c` and `cond-var-example.c` contain the same bounded
buffer. `writeToServer` is a whole call of `write_to_server`. As other threads
may run between its memory accesses, the same call is also given as a sequence
of separate steps, and the call is what these steps do when nothing intervenes.
-/

namespace OsSeminars
namespace Threads

open Foundation

/-- `struct server`. -/
structure Server where
  buf : List UInt8
  len : Nat
  cap : Nat

/-- `init_server`, whose buffer comes from `calloc`. -/
def initServer (cap : Nat) : Server where
  buf := List.replicate cap 0
  len := 0
  cap := cap

/-- `write_to_server`: the returned value and the server after the call. -/
def writeToServer
    (srv : Server)
    (data : UInt8) : Int × Server :=
  if (srv.len + 1) % sizeMod > srv.cap then (-1, srv)
  else
    (0,
      { srv with
        buf := srv.buf.set srv.len data
        len := (srv.len + 1) % sizeMod })

/-- The point that one call of `write_to_server` has reached. -/
inductive WritePc where
  /-- `srv->len + 1 > srv->cap` -/
  | check
  /-- the read of `srv->len` in `srv->buf[srv->len] = data` -/
  | index
  /-- the store into `srv->buf` -/
  | store (k : Nat)
  /-- the read of `srv->len` in `srv->len++` -/
  | load
  /-- the write of `srv->len` -/
  | increment (k : Nat)
  | ret (r : Int)
deriving DecidableEq

/-- One step of a call of `write_to_server`. -/
def WritePc.step
    (srv : Server)
    (data : UInt8) :
    WritePc → Server × WritePc
  | .check =>
      (srv, if (srv.len + 1) % sizeMod > srv.cap then .ret (-1) else .index)
  | .index => (srv, .store srv.len)
  | .store k => ({ srv with buf := srv.buf.set k data }, .load)
  | .load => (srv, .increment srv.len)
  | .increment k => ({ srv with len := (k + 1) % sizeMod }, .ret 0)
  | .ret r => (srv, .ret r)

/-- `n` steps of one call with nothing in between. -/
def WritePc.steps
    (data : UInt8) :
    Nat → Server × WritePc → Server × WritePc
  | 0, p => p
  | n + 1, p => WritePc.steps data n (p.2.step p.1 data)

/-- Undisturbed, the separate steps are the whole call. -/
theorem steps_eq_writeToServer
    (srv : Server)
    (data : UInt8) :
    WritePc.steps data 5 (srv, .check) =
      ((writeToServer srv data).2, .ret (writeToServer srv data).1) := by
  by_cases hfull : (srv.len + 1) % sizeMod > srv.cap
  · simp [WritePc.steps, WritePc.step, writeToServer, hfull]
  · simp [WritePc.steps, WritePc.step, writeToServer, hfull]

/-- Whole calls of `write_to_server`, one for each character. -/
def writeAll
    (srv : Server)
    (data : List UInt8) : Server :=
  data.foldl (fun srv d => (writeToServer srv d).2) srv

section WholeCalls

variable {srv : Server}

theorem writeAll_cons
    (srv : Server)
    (d : UInt8)
    (data : List UInt8) :
    writeAll srv (d :: data) = writeAll (writeToServer srv d).2 data :=
  rfl

theorem writeAll_append
    (srv : Server)
    (data rest : List UInt8) :
    writeAll srv (data ++ rest) = writeAll (writeAll srv data) rest :=
  List.foldl_append

/-- One more copy of the same character. -/
theorem writeAll_replicate_succ
    (srv : Server)
    (n : Nat)
    (d : UInt8) :
    writeAll srv (List.replicate (n + 1) d) =
      (writeToServer (writeAll srv (List.replicate n d)) d).2 := by
  rw [List.replicate_succ', writeAll_append]
  rfl

theorem writeToServer_of_room
    (srv : Server)
    (d : UInt8)
    (hroom : srv.len < srv.cap)
    (hcap : srv.cap < sizeMod) :
    writeToServer srv d =
      (0, { srv with buf := srv.buf.set srv.len d, len := srv.len + 1 }) := by
  have hlen : (srv.len + 1) % sizeMod = srv.len + 1 :=
    Nat.mod_eq_of_lt (by omega)
  unfold writeToServer
  rw [hlen, if_neg (by omega)]

/-- While there is room, the characters stand one behind the other. -/
theorem writeAll_of_room
    (srv : Server)
    (data : List UInt8)
    (hbuf : srv.buf.length = srv.cap)
    (hroom : srv.len + data.length ≤ srv.cap)
    (hcap : srv.cap < sizeMod) :
    writeAll srv data =
      { srv with
        buf :=
          srv.buf.take srv.len ++ data ++ srv.buf.drop (srv.len + data.length)
        len := srv.len + data.length } := by
  induction data generalizing srv with
  | nil =>
      simp [writeAll]
  | cons d data ih =>
      rw [List.length_cons] at hroom
      have hlt : srv.len < srv.buf.length := by
        omega
      have hwrite := writeToServer_of_room srv d (by omega) hcap
      have htail :=
        ih (writeToServer srv d).2 (by rw [hwrite]; simpa using hbuf)
          (by rw [hwrite]; dsimp only; omega) (by rw [hwrite]; exact hcap)
      have hfirst :
          (srv.buf.set srv.len d).take (srv.len + 1) =
            srv.buf.take srv.len ++ [d] := by
        rw [List.set_eq_take_append_cons_drop, if_pos hlt, List.take_append]
        simp [Nat.min_eq_left (Nat.le_of_lt hlt)]
      have hrest :
          (srv.buf.set srv.len d).drop (srv.len + 1 + data.length) =
            srv.buf.drop (srv.len + (data.length + 1)) := by
        rw [List.drop_set_of_lt (by omega)]
        exact congrArg srv.buf.drop (by omega)
      rw [writeAll_cons, htail, hwrite]
      dsimp only
      rw [hfirst, hrest]
      simp only [List.append_assoc, List.cons_append, List.nil_append,
        List.length_cons, Nat.add_assoc, Nat.add_comm 1]

/-- A full server takes no more characters. -/
theorem writeAll_of_full
    {data : List UInt8}
    (hfull : srv.len = srv.cap)
    (hcap : srv.cap < sizeMod - 1) :
    writeAll srv data = srv := by
  have hwrite : ∀ d, writeToServer srv d = (-1, srv) := by
    intro d
    have hlen : (srv.len + 1) % sizeMod = srv.len + 1 :=
      Nat.mod_eq_of_lt (by omega)
    unfold writeToServer
    rw [hlen, if_pos (by omega)]
  induction data with
  | nil =>
      rfl
  | cons d data ih =>
      rw [writeAll_cons, hwrite d]
      exact ih

/-- The largest capacity is never exceeded: the length wraps around instead. -/
theorem writeAll_of_largest
    (srv : Server)
    (data : List UInt8)
    (hcap : srv.cap = sizeMod - 1)
    (hlen : srv.len < sizeMod) :
    (writeAll srv data).cap = srv.cap ∧
    (writeAll srv data).buf.length = srv.buf.length ∧
    (writeAll srv data).len = (srv.len + data.length) % sizeMod := by
  have hpos : 0 < sizeMod := by
    decide
  induction data generalizing srv with
  | nil =>
      exact ⟨rfl, rfl, (Nat.mod_eq_of_lt hlen).symm⟩
  | cons d data ih =>
      have hnext := Nat.mod_lt (srv.len + 1) hpos
      have hwrite :
          writeToServer srv d =
            (0,
              { srv with
                buf := srv.buf.set srv.len d
                len := (srv.len + 1) % sizeMod }) := by
        unfold writeToServer
        rw [if_neg (by omega)]
      obtain ⟨hcap', hbuf', hlen'⟩ :=
        ih (writeToServer srv d).2 (by rw [hwrite]; exact hcap)
          (by rw [hwrite]; exact hnext)
      rw [hwrite] at hcap' hbuf' hlen'
      rw [writeAll_cons, hwrite]
      refine ⟨hcap', hbuf'.trans List.length_set, hlen'.trans ?_⟩
      dsimp only
      rw [Nat.mod_add_mod, List.length_cons, Nat.add_assoc, Nat.add_comm 1]

/-- As many characters as an empty server can take are its contents afterwards. -/
theorem writeAll_of_empty
    (srv : Server)
    (data : List UInt8)
    (hempty : srv.len = 0)
    (hbuf : srv.buf.length = srv.cap)
    (hdata : data.length = srv.cap)
    (hcap : srv.cap < sizeMod) :
    writeAll srv data = { srv with buf := data, len := srv.cap } := by
  rw [writeAll_of_room srv data hbuf (by omega) hcap, hempty, hdata, ← hbuf]
  simp

/-- Of too many characters the first ones are kept. -/
theorem buf_writeAll_initServer
    {cap : Nat}
    {data : List UInt8}
    (hcap : cap < sizeMod - 1)
    (hle : cap ≤ data.length) :
    (writeAll (initServer cap) data).buf = data.take cap := by
  have hfirst :=
    writeAll_of_empty (initServer cap) (data.take cap) rfl
      List.length_replicate (List.length_take_of_le hle)
      (Nat.lt_of_lt_of_le hcap (Nat.sub_le _ _))
  have hsplit := writeAll_append (initServer cap) (data.take cap) (data.drop cap)
  rw [List.take_append_drop, hfirst] at hsplit
  rw [hsplit, writeAll_of_full rfl (by exact hcap)]

/-- At the largest capacity the length comes back to zero, and the characters
written after that replace the first ones. -/
theorem buf_writeAll_largest
    {data last : List UInt8}
    (hdata : data.length % sizeMod = 0)
    (hlast : last.length = sizeMod - 1) :
    (writeAll (initServer (sizeMod - 1)) (data ++ last)).buf = last := by
  obtain ⟨hcap, hbuf, hlen⟩ :=
    writeAll_of_largest (initServer (sizeMod - 1)) data rfl
      (by decide)
  have hempty : (writeAll (initServer (sizeMod - 1)) data).len = 0 := by
    rw [hlen, ← hdata]
    simp [initServer]
  have hcap' : (writeAll (initServer (sizeMod - 1)) data).cap = sizeMod - 1 := hcap
  have hbuf' := hbuf.trans (List.length_replicate (n := sizeMod - 1) (a := 0))
  rw [writeAll_append,
    writeAll_of_empty _ _ hempty (hbuf'.trans hcap'.symm) (hlast.trans hcap'.symm)
      (by rw [hcap']; decide)]

end WholeCalls

/-- What a step of the call has read is still the length of the server. -/
def WritePc.Current (len : Nat) : WritePc → Prop
  | .store k => k = len
  | .increment k => k = len
  | .ret r => r = 0
  | _ => True

/-- The number of characters stored and not yet counted in `srv->len`. -/
def WritePc.uncounted : WritePc → Nat
  | .load => 1
  | .increment _ => 1
  | _ => 0

/-- The number of characters stored so far by this call. -/
def WritePc.stored : WritePc → Nat
  | .load => 1
  | .increment _ => 1
  | .ret _ => 1
  | _ => 0

/--
The steps of a call that is alone on the server and has room for its character.
Apart from the store and the increment they leave the server as it is.
-/
theorem WritePc.step_cases
    {srv : Server}
    {w : WritePc}
    (data : UInt8)
    (hcur : w.Current srv.len)
    (hroom : srv.len + w.uncounted + 1 ≤ srv.cap + w.stored)
    (hcap : srv.cap < sizeMod) :
    ((∀ k, w ≠ .store k) ∧
      ∃ w', w.step srv data = (srv, w') ∧
      w'.Current srv.len ∧
      w'.uncounted = w.uncounted ∧
      w'.stored = w.stored) ∨
    (w = .store srv.len ∧
      w.step srv data =
        ({ srv with buf := srv.buf.set srv.len data }, .load)) ∨
    (w = .increment srv.len ∧
      w.step srv data = ({ srv with len := srv.len + 1 }, .ret 0)) := by
  cases w with
  | check =>
      simp only [uncounted, stored] at hroom
      have hlen : (srv.len + 1) % sizeMod = srv.len + 1 :=
        Nat.mod_eq_of_lt (by omega)
      have hfits : ¬ (srv.len + 1) % sizeMod > srv.cap := by
        omega
      refine Or.inl ⟨by simp, .index, ?_, trivial, rfl, rfl⟩
      simp [WritePc.step, hfits]
  | index =>
      exact Or.inl ⟨by simp, .store srv.len, rfl, rfl, rfl, rfl⟩
  | store k =>
      cases hcur
      exact Or.inr (Or.inl ⟨rfl, rfl⟩)
  | load =>
      exact Or.inl ⟨by simp, .increment srv.len, rfl, rfl, rfl, rfl⟩
  | increment k =>
      cases hcur
      simp only [uncounted, stored] at hroom
      have hlen : (srv.len + 1) % sizeMod = srv.len + 1 :=
        Nat.mod_eq_of_lt (by omega)
      refine Or.inr (Or.inr ⟨rfl, ?_⟩)
      simp [WritePc.step, hlen]
  | ret r =>
      exact Or.inl ⟨by simp, .ret r, rfl, hcur, rfl, rfl⟩

end Threads
end OsSeminars
