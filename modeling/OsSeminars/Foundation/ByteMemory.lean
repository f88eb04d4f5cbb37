import Mathlib.Data.Nat.ModEq
import Mathlib.Tactic.Common
import Mathlib.Tactic.Ring

/-!
# Foundation: byte-addressed memories

A memory gives each of the `2 ^ w` addresses a byte. Numbers of several bytes are
stored little endian, and address arithmetic wraps around.

`InRange a n b` says that the address `b` is one of the `n` addresses from `a`
on. All rules about loads and stores are in its terms: a load reads nothing
outside its range, a store changes nothing outside its range, and ranges without
a common address do not disturb each other.
-/

namespace OsSeminars
namespace Foundation

/-- The contents of all addresses. -/
abbrev ByteMemory (w : Nat) : Type :=
  BitVec w → UInt8

/-- The address `b` is one of the `n` addresses from `a` on. -/
def InRange
    {w : Nat}
    (a : BitVec w)
    (n : Nat)
    (b : BitVec w) :
    Prop :=
  (b - a).toNat < n

instance
    {w : Nat}
    (a : BitVec w)
    (n : Nat)
    (b : BitVec w) :
    Decidable (InRange a n b) :=
  inferInstanceAs (Decidable (_ < _))

/-- No address is in both ranges. -/
def Apart
    {w : Nat}
    (a : BitVec w)
    (n : Nat)
    (b : BitVec w)
    (k : Nat) :
    Prop :=
  ∀ c, InRange a n c → ¬ InRange b k c

section Ranges

variable {w : Nat} {a b : BitVec w} {n k i : Nat}

theorem inRange_add
    (hi : i < n)
    (hn : n ≤ 2 ^ w) :
    InRange a n (a + BitVec.ofNat w i) := by
  unfold InRange
  rw [BitVec.add_comm a, BitVec.add_sub_cancel, BitVec.toNat_ofNat,
    Nat.mod_eq_of_lt (by omega)]
  exact hi

/-- Every address of a range is its start plus a smaller number. -/
theorem exists_of_inRange
    (h : InRange a n b) :
    ∃ i < n, b = a + BitVec.ofNat w i := by
  refine ⟨(b - a).toNat, h, ?_⟩
  rw [BitVec.ofNat_toNat, BitVec.setWidth_eq, BitVec.add_comm, BitVec.sub_add_cancel]

theorem inRange_mono
    (h : InRange a n b)
    (hn : n ≤ k) :
    InRange a k b :=
  Nat.lt_of_lt_of_le h hn

/-- A part of a range that starts `i` addresses behind its start. -/
theorem inRange_of_part
    (h : InRange (a + BitVec.ofNat w i) n b)
    (hn : i + n ≤ k) :
    InRange a k b := by
  unfold InRange at h ⊢
  have hsplit : b - a = (b - (a + BitVec.ofNat w i)) + BitVec.ofNat w i := by
    rw [← BitVec.sub_sub, BitVec.sub_add_cancel]
  rw [hsplit, BitVec.toNat_add, BitVec.toNat_ofNat]
  have hle := Nat.mod_le i (2 ^ w)
  have hmod := Nat.mod_le ((b - (a + BitVec.ofNat w i)).toNat + i % 2 ^ w) (2 ^ w)
  omega

/-- Different parts of one range are apart. -/
theorem apart_of_parts
    {p : BitVec w}
    {j : Nat}
    (h : i + n ≤ j ∨ j + k ≤ i)
    (hi : i + n ≤ 2 ^ w)
    (hj : j + k ≤ 2 ^ w) :
    Apart (p + BitVec.ofNat w i) n (p + BitVec.ofNat w j) k := by
  intro c hc hc'
  obtain ⟨x, hx, rfl⟩ := exists_of_inRange hc
  obtain ⟨y, hy, heq⟩ := exists_of_inRange hc'
  rw [BitVec.add_assoc, BitVec.add_assoc, ← BitVec.ofNat_add, ← BitVec.ofNat_add] at heq
  have hval := congrArg BitVec.toNat ((BitVec.add_right_inj p).mp heq)
  rw [BitVec.toNat_ofNat, BitVec.toNat_ofNat, Nat.mod_eq_of_lt (by omega),
    Nat.mod_eq_of_lt (by omega)] at hval
  omega

end Ranges

namespace ByteMemory

variable {w : Nat}

/-- The number in the `n` bytes from `a` on. -/
def load
    (m : ByteMemory w)
    (a : BitVec w) :
    Nat → Nat
  | 0 => 0
  | n + 1 => (m a).toNat + 256 * load m (a + 1#w) n

/-- Store the `n` lowest bytes of `v` from `a` on. -/
def store
    (m : ByteMemory w)
    (a : BitVec w)
    (n v : Nat) :
    ByteMemory w :=
  fun b => if InRange a n b then UInt8.ofNat (v / 256 ^ (b - a).toNat) else m b

section Loads

variable {m m' : ByteMemory w} {a b c : BitVec w} {n k v : Nat}

theorem load_lt
    (m : ByteMemory w)
    (a : BitVec w)
    (n : Nat) :
    load m a n < 256 ^ n := by
  induction n generalizing a with
  | zero =>
      simp [load]
  | succ n ih =>
      have hbyte := (m a).toNat_lt
      have hrest := ih (a + 1#w)
      rw [load, Nat.pow_succ]
      omega

/-- A load depends on nothing outside its range. -/
theorem load_congr
    (h : ∀ c, InRange a n c → m c = m' c) :
    load m a n = load m' a n := by
  induction n generalizing a with
  | zero =>
      rfl
  | succ n ih =>
      have hhead : InRange a (n + 1) a := by
        simp [InRange]
      rw [load, load, h a hhead, ih (fun c hc => h c (inRange_of_part hc (by omega)))]

/-- Equal numbers have equal bytes. -/
theorem eq_of_load_eq
    (h : load m a n = load m' a n)
    (hb : InRange a n b) :
    m b = m' b := by
  induction n generalizing a with
  | zero =>
      exact absurd hb (Nat.not_lt_zero _)
  | succ n ih =>
      have hbyte := (m a).toNat_lt
      have hbyte' := (m' a).toNat_lt
      rw [load, load] at h
      have hhead : (m a).toNat = (m' a).toNat := by
        omega
      have htail : load m (a + 1#w) n = load m' (a + 1#w) n := by
        omega
      obtain ⟨i, hi, rfl⟩ := exists_of_inRange hb
      cases i with
      | zero =>
          rw [BitVec.add_zero]
          exact UInt8.toNat_inj.mp hhead
      | succ i =>
          refine ih htail ?_
          unfold InRange
          rw [Nat.add_comm i 1, BitVec.ofNat_add, ← BitVec.add_assoc, BitVec.add_comm (a + 1#w),
            BitVec.add_sub_cancel, BitVec.toNat_ofNat]
          exact lt_of_le_of_lt (Nat.mod_le _ _) (by omega)

/-- A number is its low bytes and its high bytes. -/
theorem load_add
    (m : ByteMemory w)
    (a : BitVec w)
    (n k : Nat) :
    load m a (n + k) = load m a n + 256 ^ n * load m (a + BitVec.ofNat w n) k := by
  induction n generalizing a with
  | zero =>
      simp [load]
  | succ n ih =>
      have hnext : a + 1#w + BitVec.ofNat w n = a + BitVec.ofNat w (n + 1) := by
        rw [BitVec.add_assoc, ← BitVec.ofNat_add, Nat.add_comm 1]
      rw [Nat.add_right_comm, load, load, ih, hnext, Nat.pow_succ]
      ring

/-- The bytes of a number, read back. -/
theorem load_of_bytes
    (h : ∀ i < n, m (a + BitVec.ofNat w i) = UInt8.ofNat (v / 256 ^ i)) :
    load m a n = v % 256 ^ n := by
  induction n generalizing a v with
  | zero =>
      rw [load, Nat.pow_zero, Nat.mod_one]
  | succ n ih =>
      have hhead := h 0 (Nat.succ_pos n)
      rw [BitVec.add_zero, Nat.pow_zero, Nat.div_one] at hhead
      have htail : load m (a + 1#w) n = v / 256 % 256 ^ n := by
        refine ih (fun i hi => ?_)
        have hnext := h (i + 1) (Nat.succ_lt_succ hi)
        rw [Nat.add_comm i 1, BitVec.ofNat_add, ← BitVec.add_assoc, Nat.pow_add, Nat.pow_one,
          ← Nat.div_div_eq_div_mul] at hnext
        exact hnext
      have hbyte : (UInt8.ofNat v).toNat = v % 256 := by
        simp
      rw [load, hhead, htail, hbyte, Nat.pow_succ', Nat.mod_mul]

theorem store_inside
    (h : InRange a n b) :
    store m a n v b = UInt8.ofNat (v / 256 ^ (b - a).toNat) :=
  if_pos h

/-- A store changes nothing outside its range. -/
theorem store_outside
    (h : ¬ InRange a n b) :
    store m a n v b = m b :=
  if_neg h

/-- What has been stored is loaded, also when only a part of it is. -/
theorem load_store_part
    {i : Nat}
    (hk : i + k ≤ n)
    (hn : n ≤ 2 ^ w) :
    load (store m a n v) (a + BitVec.ofNat w i) k = v / 256 ^ i % 256 ^ k := by
  refine load_of_bytes (fun j hj => ?_)
  rw [BitVec.add_assoc, ← BitVec.ofNat_add, store_inside (inRange_add (by omega) hn),
    BitVec.add_comm a, BitVec.add_sub_cancel, BitVec.toNat_ofNat, Nat.mod_eq_of_lt (by omega),
    Nat.pow_add, Nat.div_div_eq_div_mul]

theorem load_store_low
    (hk : k ≤ n)
    (hn : n ≤ 2 ^ w) :
    load (store m a n v) a k = v % 256 ^ k := by
  have h := load_store_part (m := m) (a := a) (v := v) (i := 0) (Nat.zero_add k ▸ hk) hn
  rwa [BitVec.add_zero, Nat.pow_zero, Nat.div_one] at h

theorem load_store_same
    (hn : n ≤ 2 ^ w) :
    load (store m a n v) a n = v % 256 ^ n :=
  load_store_low le_rfl hn

end Loads

end ByteMemory

end Foundation
end OsSeminars
