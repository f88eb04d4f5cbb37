import OsSeminars.Foundation.MachineInt
import OsSeminars.Foundation.Search

/-!
# 12-paging-mmap/find-substrings-in-file.c: the program

The program maps a file and prints the offsets of all occurrences of a pattern,
calling `memmem` again one byte behind each occurrence.

Addresses are offsets from `ftext`. A mapping of `st_size` bytes covers whole
pages: behind the last byte of the file the rest of the page reads as zero, and
nothing may be read behind that page. `memmem` returns the leftmost occurrence
in its window; for an empty needle this is the start of the window, and a window
that is not mapped is outside its contract. The calls after the loop and on the
error path only release what the program holds and are left out.
-/

namespace OsSeminars
namespace PagingMmap
namespace FindSubstrings

open Foundation

/-- The arguments of the program and what its calls meet. -/
structure Run where
  argc : Nat
  /-- the content of the file `argv[1]` -/
  file : List UInt8
  /-- the bytes of `argv[2]` before its terminating zero -/
  pattern : List UInt8
  /-- the result of `open` -/
  f : Int
  fstatOk : Bool
  mmapOk : Bool
  pageSize : Nat
  pageSize_pos : 0 < pageSize
  /-- `st_size` is a signed 64-bit number -/
  size_lt : file.length < 2 ^ 63

/-- `st.st_size`. -/
def Run.stSize (r : Run) : Nat :=
  r.file.length

/-- The number of bytes that can be read from `ftext` on: whole pages. -/
def Run.mappedSize (r : Run) : Nat :=
  (r.stSize + r.pageSize - 1) / r.pageSize * r.pageSize

/-- The mapped bytes. -/
def Run.ftext (r : Run) : Nat → UInt8 :=
  filled r.file 0

inductive MemmemResult where
  | found (i : Nat)
  | null
  | undefined
deriving DecidableEq

/-- `memmem` on the first `mapped` bytes of a memory. -/
def memmem
    (memory : Nat → UInt8)
    (mapped haystack haystackLen : Nat)
    (needle : List UInt8) : MemmemResult :=
  if needle = [] then .found haystack
  else if haystack + haystackLen ≤ mapped then
    match firstFrom (occursAt memory needle) haystack
        (haystackLen + 1 - needle.length) with
    | some i => .found i
    | none => .null
  else .undefined

/-- The variables of the loop and the numbers printed so far. -/
structure LoopState where
  pointer : Nat
  delta : Int
  printed : List Int
deriving DecidableEq

inductive State where
  /-- before the evaluation of the loop condition -/
  | loop (l : LoopState)
  | exited (code : Nat) (stderr : String) (printed : List Int)
  | undefined
deriving DecidableEq

/-- The statements before the loop. -/
def start (r : Run) : State :=
  if r.argc ≠ 3 then .exited 1 "wrong arg count\n" []
  else if r.fstatOk = false then .exited 1 "fstat error\n" []
  else if r.f = -1 ∨ r.stSize = 0 then .exited 1 "open error\n" []
  else if r.mmapOk = false then .exited 1 "mmap error\n" []
  else .loop { pointer := 0, delta := 0, printed := [] }

/-- The length `st.st_size - delta`, converted to `size_t`. -/
def Run.windowLength
    (r : Run)
    (l : LoopState) : Nat :=
  toSizeT (r.stSize - l.delta)

/-- One evaluation of the loop condition and, if it holds, of the loop body. -/
def next
    (r : Run) :
    State → Option State
  | .loop l =>
      match memmem r.ftext r.mappedSize l.pointer (r.windowLength l)
          r.pattern with
      | .found pointer =>
          let delta := toInt32 pointer
          some (.loop
            { pointer := pointer + 1
              delta := delta
              printed := l.printed ++ [delta] })
      | .null => some (.exited 0 "" l.printed)
      | .undefined => some .undefined
  | .exited _ _ _ => none
  | .undefined => none

/-- The state after `k` steps, or the last one if the run ends before. -/
def stateAfter
    (r : Run) :
    Nat → State → State
  | 0, s => s
  | k + 1, s =>
      match next r s with
      | none => s
      | some t => stateAfter r k t

/-- The argument count is right and no call fails. -/
def Run.CallsSucceed (r : Run) : Prop :=
  r.argc = 3 ∧ r.f ≠ -1 ∧ r.fstatOk = true ∧ r.mmapOk = true

end FindSubstrings
end PagingMmap
end OsSeminars
