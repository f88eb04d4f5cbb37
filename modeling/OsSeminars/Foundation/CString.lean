import OsSeminars.Foundation.Buffer

/-!
# Foundation: C strings in buffers

A C string is what a buffer holds in front of its first zero. A buffer without a zero
holds none, and a function that looks for its end reads behind the buffer.

`fgets` stores the beginning of a stream, up to a line break, and a zero behind it. When
the stream has ended it leaves the buffer as it is. `snprintf` cuts a text off where the
buffer ends.
-/

namespace OsSeminars
namespace Foundation
namespace CString

/-- The bytes of a literal of ASCII characters. -/
def literal
    (text : String) :
    List UInt8 :=
  text.toList.map fun c => UInt8.ofNat c.toNat

/-- `strlen`, as long as it reads inside the buffer. -/
def strlen
    (bytes : List UInt8) :
    Option Nat :=
  bytes.findIdx? fun c => c = 0

/-- The first line of a text with its line break. -/
def firstLine :
    List UInt8 → List UInt8
  | [] => []
  | c :: rest => if c = 10 then [c] else c :: firstLine rest

/-- What `fgets` takes from a stream for a buffer of `n` bytes. -/
def delivered
    (n : Nat)
    (stream : List UInt8) :
    List UInt8 :=
  (firstLine stream).take (n - 1)

/-- `fgets` on the whole buffer. -/
def fgets
    {n : Nat}
    (buffer : Buffer UInt8 n)
    (stream : List UInt8) :
    Buffer UInt8 n :=
  if delivered n stream = [] then buffer
  else buffer.overwrite (delivered n stream ++ [0])

/-- The string that `snprintf` leaves in a buffer of `n` bytes. -/
def snprintf
    (n : Nat)
    (text : List UInt8) :
    List UInt8 :=
  text.take (n - 1)

variable {n len : Nat} {bytes text stream : List UInt8} {buffer : Buffer UInt8 n}

theorem strlen_eq_none_iff :
    strlen bytes = none ↔ 0 ∉ bytes := by
  rw [strlen, List.findIdx?_eq_none_iff]
  constructor
  · intro h hmem
    simpa using h 0 hmem
  · intro h c hc
    rw [decide_eq_false_iff_not]
    rintro rfl
    exact h hc

theorem strlen_append_zero
    (h : 0 ∉ text)
    (rest : List UInt8) :
    strlen (text ++ 0 :: rest) = some text.length := by
  have hnone := strlen_eq_none_iff.mpr h
  rw [strlen] at hnone ⊢
  rw [List.findIdx?_append, hnone]
  simp [List.findIdx?_cons]

theorem strlen_eq_zero_iff :
    strlen bytes = some 0 ↔ bytes.head? = some 0 := by
  cases bytes with
  | nil =>
      simp [strlen]
  | cons c rest =>
      by_cases hc : c = 0
      · simp [strlen, List.findIdx?_cons, hc]
      · simp [strlen, List.findIdx?_cons, hc]

theorem firstLine_append
    (h : 10 ∉ text)
    (rest : List UInt8) :
    firstLine (text ++ 10 :: rest) = text ++ [10] := by
  induction text with
  | nil =>
      rfl
  | cons c text ih =>
      have hc : c ≠ 10 := fun hc => h (hc ▸ List.mem_cons_self)
      rw [List.cons_append, firstLine, if_neg hc, ih (List.not_mem_of_not_mem_cons h)]
      rfl

theorem fgets_of_eof
    (h : delivered n stream = []) :
    fgets buffer stream = buffer :=
  if_pos h

/-- What has been delivered is a string in the buffer, if it has no zero itself. -/
theorem contents_fgets
    (buffer : Buffer UInt8 n)
    (hn : 0 < n)
    (h : delivered n stream ≠ []) :
    ∃ rest, (fgets buffer stream).contents = delivered n stream ++ 0 :: rest := by
  have hlength : (delivered n stream).length ≤ n - 1 := by
    rw [delivered, List.length_take]
    exact Nat.min_le_left _ _
  refine ⟨buffer.contents.drop (delivered n stream ++ [0]).length, ?_⟩
  rw [fgets, if_neg h, Buffer.overwrite_contents, List.take_of_length_le, List.append_assoc]
  · rfl
  · rw [List.length_append, List.length_singleton]
    omega

/-- A text is not cut off if and only if there is room for it and the zero behind it. -/
theorem snprintf_eq_iff
    (hn : 0 < n) :
    snprintf n text = text ↔ text.length < n := by
  rw [snprintf, List.take_eq_self_iff]
  omega

end CString
end Foundation
end OsSeminars
