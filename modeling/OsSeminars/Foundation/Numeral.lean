import OsSeminars.Foundation.MachineInt
import OsSeminars.Foundation.ScanInt

/-!
# Foundation: numerals

`strtol` and its relatives read the longest run of digits of a base. `%d` writes the
digits of a number in base ten, without a leading zero unless the number is zero itself.
Reading what has been written gives the number back, whatever follows that is no digit.
-/

namespace OsSeminars
namespace Foundation
namespace Numeral

open ScanInt (isSpace clampLong)

/-- The value of a digit; `16` for anything that is no digit in any base. -/
def digit
    (c : UInt8) :
    Nat :=
  if 48 ≤ c.toNat ∧ c.toNat ≤ 57 then c.toNat - 48
  else if 97 ≤ c.toNat ∧ c.toNat ≤ 102 then c.toNat - 87
  else if 65 ≤ c.toNat ∧ c.toNat ≤ 70 then c.toNat - 55
  else 16

/-- The character is a digit of the base. -/
def isDigitOf
    (base : Nat)
    (c : UInt8) :
    Bool :=
  digit c < base

/-- The number that a run of digits stands for. -/
def valueOf
    (base : Nat)
    (digits : List UInt8) :
    Nat :=
  digits.foldl (fun value c => base * value + digit c) 0

/-- What `%d` writes for a number that is not negative. -/
def decimal
    (n : Nat) :
    List UInt8 :=
  (Nat.toDigits 10 n).map fun c => UInt8.ofNat c.toNat

/-- The digits that a conversion takes, and the text behind them. -/
def scanBase
    (base : Nat)
    (text : List UInt8) :
    Nat × List UInt8 :=
  (valueOf base (text.takeWhile (isDigitOf base)), text.dropWhile (isDigitOf base))

/-- `atoi`. -/
def atoi
    (text : List UInt8) :
    Int :=
  toInt32
    (match text.dropWhile isSpace with
    | 45 :: rest => clampLong (-(scanBase 10 rest).1)
    | 43 :: rest => clampLong (scanBase 10 rest).1
    | rest => clampLong (scanBase 10 rest).1)

/-- The number at the beginning of a text, in the base that its first digits name. -/
def scanAnyBase
    (text : List UInt8) :
    Nat × List UInt8 :=
  match text with
  | 48 :: x :: h :: rest =>
      if (x = 120 ∨ x = 88) ∧ isDigitOf 16 h then scanBase 16 (h :: rest)
      else scanBase 8 text
  | 48 :: _ => scanBase 8 text
  | _ => scanBase 10 text

/-- `strtoul` with base zero and a result of 64 bits. -/
def strtoul
    (text : List UInt8) :
    Nat :=
  let value := fun digits => (scanAnyBase digits).1
  match text.dropWhile isSpace with
  | 45 :: rest =>
      if 2 ^ 64 ≤ value rest then 2 ^ 64 - 1 else (2 ^ 64 - value rest) % 2 ^ 64
  | 43 :: rest => min (value rest) (2 ^ 64 - 1)
  | rest => min (value rest) (2 ^ 64 - 1)

section Decimal

variable {base n : Nat} {text rest : List UInt8} {c : UInt8}

theorem valueOf_concat
    (base : Nat)
    (digits : List UInt8)
    (c : UInt8) :
    valueOf base (digits ++ [c]) = base * valueOf base digits + digit c := by
  rw [valueOf, List.foldl_append]
  rfl

theorem digit_of_lt
    (h : n < 10) :
    digit (UInt8.ofNat (Nat.digitChar n).toNat) = n := by
  revert n
  decide

/-- A number below ten has one digit; otherwise its last digit is the remainder by ten. -/
theorem decimal_eq_if
    (n : Nat) :
    decimal n =
      if n < 10 then [UInt8.ofNat (Nat.digitChar n).toNat]
      else decimal (n / 10) ++ [UInt8.ofNat (Nat.digitChar (n % 10)).toNat] := by
  rw [decimal, Nat.toDigits_eq_if (by decide)]
  split_ifs
  · rfl
  · rw [List.map_append]
    rfl

@[simp] theorem valueOf_decimal
    (n : Nat) :
    valueOf 10 (decimal n) = n := by
  induction n using Nat.strongRecOn with
  | ind n ih =>
      rw [decimal_eq_if]
      split_ifs with hn
      · simp [valueOf, digit_of_lt hn]
      · rw [valueOf_concat, ih _ (by omega), digit_of_lt (by omega)]
        omega

theorem isDigitOf_of_mem_decimal
    (h : c ∈ decimal n) :
    isDigitOf 10 c = true := by
  induction n using Nat.strongRecOn with
  | ind n ih =>
      rw [decimal_eq_if] at h
      split_ifs at h with hn
      · rw [List.mem_singleton.mp h, isDigitOf, digit_of_lt hn, decide_eq_true hn]
      · rcases List.mem_append.mp h with hfront | hlast
        · exact ih _ (by omega) hfront
        · have hlt : n % 10 < 10 := by
            omega
          rw [List.mem_singleton.mp hlast, isDigitOf, digit_of_lt hlt, decide_eq_true hlt]

/-- A positive number has no leading zero. -/
theorem decimal_eq_cons
    (h : 0 < n) :
    ∃ c rest, decimal n = c :: rest ∧ c ≠ 48 := by
  induction n using Nat.strongRecOn with
  | ind n ih =>
      rw [decimal_eq_if]
      split_ifs with hn
      · refine ⟨_, [], rfl, fun hzero => ?_⟩
        have hdigit := digit_of_lt hn
        rw [hzero] at hdigit
        exact absurd hdigit (Nat.ne_of_lt h)
      · obtain ⟨c, rest, hfront, hc⟩ := ih (n / 10) (by omega) (by omega)
        exact ⟨c, rest ++ _, by rw [hfront]; rfl, hc⟩

/-- Digits and then something else. -/
theorem scanBase_append
    (hdigits : ∀ c ∈ text, isDigitOf base c = true)
    (hrest : ∀ c ∈ rest.head?, isDigitOf base c = false) :
    scanBase base (text ++ rest) = (valueOf base text, rest) := by
  have hstop : rest.takeWhile (isDigitOf base) = [] ∧
      rest.dropWhile (isDigitOf base) = rest := by
    cases rest with
    | nil =>
        exact ⟨rfl, rfl⟩
    | cons c rest =>
        have hc := hrest c rfl
        exact ⟨by rw [List.takeWhile_cons, hc]; rfl, by rw [List.dropWhile_cons, hc]; rfl⟩
  rw [scanBase, List.takeWhile_append_of_pos hdigits, List.dropWhile_append_of_pos hdigits,
    hstop.1, hstop.2, List.append_nil]

/-- Reading what `%d` has written. -/
theorem scanBase_decimal
    (n : Nat)
    (hrest : ∀ c ∈ rest.head?, isDigitOf 10 c = false) :
    scanBase 10 (decimal n ++ rest) = (n, rest) := by
  rw [scanBase_append (fun c hc => isDigitOf_of_mem_decimal hc) hrest, valueOf_decimal]

theorem decimal_ne_nil
    (n : Nat) :
    decimal n ≠ [] := by
  rw [decimal_eq_if]
  split_ifs <;> simp

theorem isSpace_of_isDigitOf
    (h : isDigitOf 10 c = true) :
    isSpace c = false := by
  have hc : 48 ≤ c.toNat := by
    rw [isDigitOf, decide_eq_true_eq, digit] at h
    split_ifs at h <;> omega
  simp only [isSpace, Bool.or_eq_false_iff, decide_eq_false_iff_not, Bool.and_eq_false_iff,
    ← UInt8.toNat_inj, UInt8.le_iff_toNat_le, UInt8.toNat_ofNat]
  omega

/-- `atoi` of what `%d` has written. -/
theorem atoi_decimal
    (h : n < 2 ^ 31) :
    atoi (decimal n) = n := by
  have hscan : scanBase 10 (decimal n ++ []) = (n, []) :=
    scanBase_decimal n (by simp)
  rw [List.append_nil] at hscan
  have hclamp : clampLong n = n := by
    rw [clampLong]
    omega
  cases hdigits : decimal n with
  | nil =>
      exact absurd hdigits (decimal_ne_nil n)
  | cons c rest =>
      have hc : isDigitOf 10 c = true :=
        isDigitOf_of_mem_decimal (by rw [hdigits]; exact List.mem_cons_self)
      rw [hdigits] at hscan
      rw [atoi, List.dropWhile_cons_of_neg (by rw [isSpace_of_isDigitOf hc]; decide)]
      split
      · next heq =>
          cases heq
          exact absurd hc (by decide)
      · next heq =>
          cases heq
          exact absurd hc (by decide)
      · rw [hscan, hclamp, toInt32_of_le]
        rw [intMax]
        omega

/-- The text has come to its end, or a dot follows. -/
def Ends
    (rest : List UInt8) :
    Prop :=
  rest = [] ∨ rest.head? = some 46

theorem Ends.isDigitOf
    (h : Ends rest)
    {base : Nat}
    (hbase : base ≤ 16) :
    ∀ c ∈ rest.head?, isDigitOf base c = false := by
  intro c hc
  rcases h with rfl | hdot
  · cases hc
  · rw [hdot] at hc
    cases hc
    rw [Numeral.isDigitOf, decide_eq_false_iff_not, show digit 46 = 16 from rfl]
    omega

/-- A number without a leading zero is read in base ten, and zero as it is. -/
theorem scanAnyBase_decimal
    (n : Nat)
    (h : Ends rest) :
    scanAnyBase (decimal n ++ rest) = (n, rest) := by
  rcases Nat.eq_zero_or_pos n with rfl | hpos
  · have hdigits : ∀ c ∈ ([48] : List UInt8), isDigitOf 8 c = true := by
      intro c hc
      rw [List.mem_singleton.mp hc]
      rfl
    have hzero : scanBase 8 ([48] ++ rest) = (0, rest) :=
      scanBase_append hdigits (h.isDigitOf (by omega))
    have hdecimal : decimal 0 = [48] := rfl
    rw [hdecimal]
    unfold scanAnyBase
    split
    · next x hd tail heq =>
        cases heq
        rcases h with hnil | hdot
        · cases hnil
        · cases hdot
          rw [if_neg (by simp)]
          exact hzero
    · exact hzero
    · next _ hne =>
        exact absurd rfl (hne rest)
  · obtain ⟨c, tail, hdecimal, hc⟩ := decimal_eq_cons hpos
    have hscan := scanBase_decimal n (h.isDigitOf (by decide))
    rw [hdecimal] at hscan ⊢
    unfold scanAnyBase
    split
    · next heq =>
        exact absurd (List.cons.inj heq).1 hc
    · next heq =>
        exact absurd (List.cons.inj heq).1 hc
    · exact hscan

/-- `strtoul` of what `%d` has written. -/
theorem strtoul_decimal
    (h : n < 2 ^ 64) :
    strtoul (decimal n) = n := by
  have hscan : scanAnyBase (decimal n ++ []) = (n, []) :=
    scanAnyBase_decimal n (Or.inl rfl)
  rw [List.append_nil] at hscan
  have hclamp : min n (2 ^ 64 - 1) = n := by
    omega
  cases hdigits : decimal n with
  | nil =>
      exact absurd hdigits (decimal_ne_nil n)
  | cons c rest =>
      have hc : isDigitOf 10 c = true :=
        isDigitOf_of_mem_decimal (by rw [hdigits]; exact List.mem_cons_self)
      rw [hdigits] at hscan
      rw [strtoul, List.dropWhile_cons_of_neg (by rw [isSpace_of_isDigitOf hc]; decide)]
      split
      · next heq =>
          cases heq
          exact absurd hc (by decide)
      · next heq =>
          cases heq
          exact absurd hc (by decide)
      · dsimp only
        rw [hscan, hclamp]

end Decimal

end Numeral
end Foundation
end OsSeminars
