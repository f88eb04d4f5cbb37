import OsSeminars.Foundation.CString

/-!
# 18-crypto-basics/dgst-sha512.c

The program stores the bytes of its input in a block of memory, one behind another, and
prints the digest of the string that the block then holds. Nothing looks at the size of
the block, and a zero in the input ends the string. The hash function is a parameter.
-/

namespace OsSeminars
namespace CryptoBasics
namespace DgstSha512

open Foundation
open CString (strlen)

/-- `size` -/
def size : Nat :=
  2048

/-- The loop `while (scanf("%c", &memory[i]) != EOF) ++i`. A store behind the block has no
defined effect: the loop ends with the first one, and its index is kept. -/
def readLoop
    (memory : List UInt8)
    (i : Nat) :
    List UInt8 → Except Nat (List UInt8)
  | [] => .ok memory
  | c :: input =>
      if i < memory.length then readLoop (memory.set i c) (i + 1) input
      else .error i

/-- What is passed to `SHA512`, if all stores and reads are inside of the block. -/
inductive Outcome
  | storeOutside (i : Nat)
  | readOutside
  | hashed (message : List UInt8)
  deriving DecidableEq

/-- `main` up to the call of `SHA512(memory, strlen(memory), hashed)`. -/
def main
    (input : List UInt8) :
    Outcome :=
  match readLoop (List.replicate size 0) 0 input with
  | .error i => .storeOutside i
  | .ok memory =>
      match strlen memory with
      | none => .readOutside
      | some len => .hashed (memory.take len)

/-- `printf("%02x", ..)` of one byte. -/
def hexByte
    (b : UInt8) :
    String :=
  String.ofList [Nat.digitChar (b.toNat / 16), Nat.digitChar (b.toNat % 16)]

/-- What the program prints. -/
def output
    (sha512 : List UInt8 → List UInt8) :
    Outcome → Option String
  | .hashed message => some ("0x" ++ String.join ((sha512 message).map hexByte))
  | _ => none

variable {input written rest : List UInt8}

/-- The loop appends the input to what has been stored, as long as there is room. -/
theorem readLoop_eq
    (written rest input : List UInt8) :
    readLoop (written ++ rest) written.length input =
      if input.length ≤ rest.length then .ok (written ++ input ++ rest.drop input.length)
      else .error (written.length + rest.length) := by
  induction input generalizing written rest with
  | nil =>
      simp [readLoop]
  | cons c input ih =>
      cases rest with
      | nil =>
          simp [readLoop]
      | cons b rest =>
          have hroom : written.length < (written ++ b :: rest).length := by simp
          have hset : (written ++ b :: rest).set written.length c =
              (written ++ [c]) ++ rest := by
            simp
          have hnext := ih (written ++ [c]) rest
          rw [List.length_append, List.length_singleton] at hnext
          rw [readLoop, if_pos hroom, hset, hnext]
          simp only [List.length_cons, Nat.add_le_add_iff_right, List.drop_succ_cons,
            List.append_assoc, List.singleton_append, Nat.add_right_comm, Nat.add_assoc]

/-- The block behind the loop. -/
theorem readLoop_block :
    readLoop (List.replicate size 0) 0 input =
      if input.length ≤ size then .ok (input ++ List.replicate (size - input.length) 0)
      else .error size := by
  have hloop := readLoop_eq [] (List.replicate size 0) input
  simpa using hloop

/-- A zero in the input ends the message. -/
theorem main_of_zero
    (hsplit : input = written ++ 0 :: rest)
    (hzero : 0 ∉ written)
    (hlength : input.length ≤ size) :
    main input = .hashed written := by
  have hblock : input ++ List.replicate (size - input.length) 0 =
      written ++ 0 :: (rest ++ List.replicate (size - input.length) 0) := by
    rw [hsplit, List.append_assoc]
    rfl
  rw [main, readLoop_block, if_pos hlength]
  dsimp only
  rw [hblock, CString.strlen_append_zero hzero]
  dsimp only
  rw [List.take_left]

/-- A string in the block is the message. -/
theorem main_of_lt
    (hlength : input.length < size)
    (hzero : 0 ∉ input) :
    main input = .hashed input := by
  obtain ⟨n, hn⟩ : ∃ n, size - input.length = n + 1 :=
    Nat.exists_eq_succ_of_ne_zero (by omega)
  rw [main, readLoop_block, if_pos (Nat.le_of_lt hlength), hn, List.replicate_succ]
  dsimp only
  rw [CString.strlen_append_zero hzero]
  dsimp only
  rw [List.take_left]

/-- A block that is full of other bytes than zero holds no string. -/
theorem main_of_full
    (hlength : input.length = size)
    (hzero : 0 ∉ input) :
    main input = .readOutside := by
  rw [main, readLoop_block, if_pos (Nat.le_of_eq hlength), hlength, Nat.sub_self,
    List.replicate_zero, List.append_nil]
  dsimp only
  rw [CString.strlen_eq_none_iff.mpr hzero]

theorem main_of_long
    (hlength : size < input.length) :
    main input = .storeOutside size := by
  rw [main, readLoop_block, if_neg (Nat.not_le_of_lt hlength)]

theorem main_eq_hashed_iff :
    main input = .hashed input ↔ input.length < size ∧ 0 ∉ input := by
  rcases Nat.lt_trichotomy input.length size with hlt | hfull | hlong
  · by_cases hzero : 0 ∈ input
    · obtain ⟨written, rest, hsplit, hfirst⟩ := List.eq_append_cons_of_mem hzero
      rw [main_of_zero hsplit hfirst (Nat.le_of_lt hlt)]
      refine iff_of_false (fun h => hfirst ?_) (fun h => h.2 hzero)
      rw [Outcome.hashed.inj h]
      exact hzero
    · exact iff_of_true (main_of_lt hlt hzero) ⟨hlt, hzero⟩
  · refine iff_of_false (fun h => ?_) (fun h => absurd h.1 (Nat.not_lt_of_le hfull.ge))
    by_cases hzero : 0 ∈ input
    · obtain ⟨written, rest, hsplit, hfirst⟩ := List.eq_append_cons_of_mem hzero
      rw [main_of_zero hsplit hfirst hfull.le] at h
      rw [Outcome.hashed.inj h] at hfirst
      exact hfirst hzero
    · rw [main_of_full hfull hzero] at h
      cases h
  · rw [main_of_long hlong]
    refine iff_of_false (fun h => ?_) (fun h => absurd h.1 (Nat.not_lt_of_gt hlong))
    cases h

/-- The whole input is stored and hashed if and only if there is room in the block for it
and a zero, and it has no zero itself. Two such inputs are different messages. -/
theorem hashes_input_iff
    (input : List UInt8) :
    (main input = .hashed input ↔ input.length < size ∧ 0 ∉ input) ∧
    ∀ other, (input.length < size ∧ 0 ∉ input) → (other.length < size ∧ 0 ∉ other) →
      other ≠ input → main other ≠ main input := by
  refine ⟨main_eq_hashed_iff, fun other hinput hother hne h => hne ?_⟩
  rw [main_eq_hashed_iff.mpr hinput, main_eq_hashed_iff.mpr hother] at h
  exact Outcome.hashed.inj h

theorem hashes_input_twoInputs :
    main [97] = .hashed [97] ∧ main [98] ≠ main [97] := by
  obtain ⟨hiff, hother⟩ := hashes_input_iff [97]
  exact ⟨hiff.mpr (by decide), hother [98] (by decide) (by decide) (by decide)⟩

/-- Two inputs with a zero have the same digest, whatever the hash function is, and a long
input is stored behind the block. -/
theorem not_hashes_input_zeroByte :
    main [97, 0, 98] ≠ .hashed [97, 0, 98] ∧
    (∀ sha512, output sha512 (main [97, 0, 98]) = output sha512 (main [97, 0, 99])) ∧
    main (List.replicate 2049 97) = .storeOutside 2048 := by
  have hmessage (c : UInt8) : main [97, 0, c] = .hashed [97] := by
    have hsplit : [97, 0, c] = [97] ++ 0 :: [c] := rfl
    exact main_of_zero hsplit (by decide) (by decide : 3 ≤ size)
  refine ⟨?_, fun sha512 => by rw [hmessage, hmessage], main_of_long ?_⟩
  · rw [hmessage]
    decide
  · rw [List.length_replicate]
    decide

end DgstSha512
end CryptoBasics
end OsSeminars
