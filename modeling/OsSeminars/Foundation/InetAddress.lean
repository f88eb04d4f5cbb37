import OsSeminars.Foundation.Numeral

/-!
# Foundation: internet addresses and ports

An address is kept as a number with its first byte on top. `inet_ntoa` writes the four
bytes in base ten. `inet_addr` reads more: up to four numbers, each as a C constant, the
last of which fills the bytes that are left; white space may follow. For anything else it
returns the address of which all bits are set.

A port is a number of two bytes, the first of which is on top in network byte order. The
host keeps the first byte of a number below, so `htons` exchanges the two.
-/

namespace OsSeminars
namespace Foundation
namespace InetAddress

open Numeral

abbrev Address : Type :=
  BitVec 32

abbrev Port : Type :=
  BitVec 16

/-- `inet_ntoa`. -/
def inetNtoa
    (a : Address) :
    List UInt8 :=
  decimal (a.toNat / 256 ^ 3) ++ 46 ::
    (decimal (a.toNat / 256 ^ 2 % 256) ++ 46 ::
      (decimal (a.toNat / 256 % 256) ++ 46 :: decimal (a.toNat % 256)))

/-- The numbers of an address, of which `room` may be followed by a dot. -/
def inetAton
    (room : Nat)
    (text : List UInt8) :
    Option Nat :=
  if text.head?.any (isDigitOf 10) = false then none
  else if (scanAnyBase text).1 ≥ 2 ^ 32 then none
  else
    match (scanAnyBase text).2 with
    | 46 :: rest =>
        match room with
        | 0 => none
        | room + 1 =>
            if (scanAnyBase text).1 > 255 then none
            else (inetAton room rest).map ((scanAnyBase text).1 * 256 ^ (room + 1) + ·)
    | rest =>
        if (scanAnyBase text).1 < 256 ^ (room + 1) ∧ rest.head?.all ScanInt.isSpace then
          some (scanAnyBase text).1
        else none
termination_by structural room

/-- `inet_addr`. -/
def inetAddr
    (text : List UInt8) :
    Address :=
  match inetAton 3 text with
  | some a => BitVec.ofNat 32 a
  | none => BitVec.allOnes 32

/-- `htons`, which is its own inverse `ntohs`. -/
def htons
    (x : Port) :
    Port :=
  BitVec.ofNat 16 (x.toNat % 256 * 256 + x.toNat / 256)

section RoundTrips

variable {n room : Nat} {rest : List UInt8}

theorem toNat_htons
    (x : Port) :
    (htons x).toNat = x.toNat % 256 * 256 + x.toNat / 256 := by
  have hx := x.isLt
  rw [htons, BitVec.toNat_ofNat, Nat.mod_eq_of_lt (by omega)]

@[simp] theorem htons_htons
    (x : Port) :
    htons (htons x) = x := by
  have hx := x.isLt
  apply BitVec.eq_of_toNat_eq
  rw [toNat_htons, toNat_htons]
  omega

theorem head_decimal_append
    (n : Nat)
    (rest : List UInt8) :
    (decimal n ++ rest).head?.any (isDigitOf 10) = true := by
  cases hdigits : decimal n with
  | nil =>
      exact absurd hdigits (decimal_ne_nil n)
  | cons c tail =>
      exact isDigitOf_of_mem_decimal (by rw [hdigits]; exact List.mem_cons_self)

theorem inetAton_dot
    (h : n < 256)
    (room : Nat)
    (rest : List UInt8) :
    inetAton (room + 1) (decimal n ++ 46 :: rest) =
      (inetAton room rest).map (n * 256 ^ (room + 1) + ·) := by
  have hscan : scanAnyBase (decimal n ++ 46 :: rest) = (n, 46 :: rest) :=
    scanAnyBase_decimal n (Or.inr rfl)
  rw [inetAton, head_decimal_append, hscan, if_neg (by decide), if_neg (by omega)]
  exact if_neg (by omega)

theorem inetAton_last
    (h : n < 256) :
    inetAton 0 (decimal n) = some n := by
  have hscan : scanAnyBase (decimal n ++ []) = (n, []) :=
    scanAnyBase_decimal n (Or.inl rfl)
  have hhead := head_decimal_append n []
  rw [List.append_nil] at hscan hhead
  rw [inetAton, hhead, hscan, if_neg (by decide), if_neg (by omega)]
  exact if_pos ⟨by omega, rfl⟩

/-- Every address is read as it is written. -/
@[simp] theorem inetAddr_inetNtoa
    (a : Address) :
    inetAddr (inetNtoa a) = a := by
  have ha := a.isLt
  have hread : inetAton 3 (inetNtoa a) = some a.toNat := by
    rw [inetNtoa, inetAton_dot (by omega), inetAton_dot (by omega), inetAton_dot (by omega),
      inetAton_last (by omega)]
    simp only [Option.map_some, Option.some.injEq]
    omega
  rw [inetAddr, hread]
  exact (BitVec.ofNat_toNat 32 a).trans (BitVec.setWidth_eq a)

/-- A port that has been written by `%d` is the one that `atoi` and `htons` make of it. -/
theorem htons_atoi_decimal
    (p : Port) :
    htons (BitVec.ofInt 16 (atoi (decimal (htons p).toNat))) = p := by
  have hp := (htons p).isLt
  rw [atoi_decimal (by omega), BitVec.ofInt_natCast, BitVec.ofNat_toNat, BitVec.setWidth_eq,
    htons_htons]

end RoundTrips

end InetAddress
end Foundation
end OsSeminars
