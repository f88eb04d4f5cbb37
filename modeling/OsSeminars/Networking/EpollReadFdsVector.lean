import OsSeminars.Foundation.TransitionSystem
import OsSeminars.Foundation.MachineInt
import Mathlib.Data.Fin.Basic
import Mathlib.Logic.Embedding.Basic
import Mathlib.Logic.Function.Basic

/-!
# 17-networking/epoll-read-fds-vector.c: the program

`read_data_and_count` registers `N` descriptors with epoll, reads whatever
becomes ready and counts the bytes of every stream until all streams ended.

**State.** The array `entries`, the counter `files_left`, the array `pending`
and the position in the two nested loops. The kernel part of the state says how
much of every stream has been read and which descriptors are closed.

**Labels.** A label carries the answer of the kernel: what `epoll_wait`
returned and stored into `pending`, and what `read` returns if the processed
event leads to a call of it. With the label fixed every step is a function.

**Contracts.** `KernelContract` admits every event for a registered entry, also
for one whose descriptor is closed already: an open file description that has a
duplicate elsewhere stays in the epoll set. `FirstDeliveryContract` admits only
events for descriptors that are still open, one per descriptor in a batch. Their
masks contain `EPOLLIN`, alone or together with other bits, such as the
`EPOLLHUP` of a pipe whose last writer has closed.
-/

namespace OsSeminars
namespace Networking
namespace EpollReadFdsVector

open Foundation

def maxEvents : Nat := 10000

def bufSize : Nat := 4096

/-- The event bit `EPOLLIN`. -/
def epollIn : UInt32 := 0x001

/-- The event bit `EPOLLHUP`. -/
def epollHup : UInt32 := 0x010

/-- `data_t`. -/
structure DataT where
  fd : Int
  count : Nat
  done : Bool

/-- `struct epoll_event`; the pointer is the index of the entry, or null. -/
structure EpollEvent (N : Nat) where
  events : UInt32
  dataPtr : Option (Fin N)

/-- Bytes read from every descriptor so far, and the descriptors closed. -/
structure KernelState where
  pos : Int → Nat
  closed : Int → Bool

/-- The effect of a call `read(fd, ..)` that returned `cnt`. -/
def KernelState.read
    (k : KernelState)
    (fd cnt : Int) : KernelState :=
  { k with pos := Function.update k.pos fd (k.pos fd + cnt.toNat) }

/-- The effect of `close(fd)`. -/
def KernelState.close
    (k : KernelState)
    (fd : Int) : KernelState :=
  { k with closed := Function.update k.closed fd true }

/-- The arguments of `read_data_and_count` and the streams behind them. -/
structure Call where
  N : Nat
  N_lt : N < sizeMod
  fds : Fin N ↪ Int
  stream : Int → List UInt8

/-- `register_event`: the entry it fills and the event it registers. -/
def registerEvent
    {N : Nat}
    (i : Fin N)
    (eventData : DataT)
    (fd : Int) :
    DataT × EpollEvent N :=
  ({ eventData with fd := fd }, { events := epollIn, dataPtr := some i })

/-- `process_pair_ready_read`, where `read` returned `cnt`. -/
def processPairReadyRead
    (data : DataT)
    (k : KernelState)
    (cnt : Int) :
    DataT × KernelState :=
  let k := k.read data.fd cnt
  if cnt > 0 then
    ({ data with count := (data.count + cnt.toNat) % sizeMod }, k)
  else if 0 = cnt then
    ({ data with done := true }, k.close data.fd)
  else
    (data, k)

/-- What `process_event` leaves in `*data`, in the kernel and in `*files_left`. -/
structure EventResult where
  data : DataT
  kernel : KernelState
  filesLeft : Nat

/-- `process_event` with the event mask, on the entry that the event points to. -/
def processEvent
    (mask : UInt32)
    (data : DataT)
    (k : KernelState)
    (filesLeft : Nat)
    (cnt : Int) : EventResult :=
  let r :=
    if mask &&& epollIn ≠ 0 then
      processPairReadyRead data k cnt
    else
      (data, k)
  { data := r.1
    kernel := r.2
    filesLeft :=
      if r.1.done then toSizeT ((filesLeft : Int) - 1) else filesLeft }

/-- Position in the nested loops. -/
inductive Pc where
  | loopHead
  | inner (n : Int) (i : Nat)
  | returned (result : Nat)
  | crashed
deriving DecidableEq

structure State (N : Nat) where
  entries : Fin N → DataT
  filesLeft : Nat
  pending : Nat → EpollEvent N
  kernel : KernelState
  pc : Pc

/-- The answers of the kernel and the two loop exits. -/
inductive Label (N : Nat) where
  | epollWait (n : Int) (ready : List (EpollEvent N))
  | event (cnt : Int)
  | innerExit
  | outerExit

/-- `epoll_wait` overwrites the first elements of `pending`. -/
def storeEvents
    {N : Nat}
    (pending : Nat → EpollEvent N)
    (ready : List (EpollEvent N)) :
    Nat → EpollEvent N :=
  fun k => (ready[k]?).getD (pending k)

/-- The last loop of `read_data_and_count`. -/
def sumCounts
    {N : Nat}
    (entries : Fin N → DataT) : Nat :=
  (List.finRange N).foldl
    (fun result i => (result + (entries i).count) % sizeMod) 0

/-- The state when the outer loop is entered. -/
def Call.start
    (c : Call) : State c.N where
  entries i :=
    (registerEvent i { fd := 0, count := 0, done := false } (c.fds i)).1
  filesLeft := c.N
  pending _ := { events := 0, dataPtr := none }
  kernel := { pos := fun _ => 0, closed := fun _ => false }
  pc := .loopHead

/-- The body of the inner loop at index `i`. -/
def innerBody
    {N : Nat}
    (s : State N)
    (n : Int)
    (i : Nat)
    (cnt : Int) : State N :=
  if i < maxEvents then
    match (s.pending i).dataPtr with
    | none => { s with pc := .crashed }
    | some e =>
        let r :=
          processEvent (s.pending i).events (s.entries e)
            s.kernel s.filesLeft cnt
        { s with
          entries := Function.update s.entries e r.data
          kernel := r.kernel
          filesLeft := r.filesLeft
          pc := .inner n (i + 1) }
  else
    { s with pc := .crashed }

/-- One step of the two loops of `read_data_and_count`. -/
def next
    {N : Nat}
    (s : State N) :
    Label N → Option (State N)
  | .epollWait n ready =>
      match s.pc with
      | .loopHead =>
          if 0 < s.filesLeft then
            some { s with
              pending := storeEvents s.pending ready
              pc := .inner n 0 }
          else none
      | _ => none
  | .event cnt =>
      match s.pc with
      | .inner n i =>
          -- `i < n` compares a `size_t` with an `int`: `n` is converted
          if i < toSizeT n then some (innerBody s n i cnt) else none
      | _ => none
  | .innerExit =>
      match s.pc with
      | .inner n i =>
          if i < toSizeT n then none else some { s with pc := .loopHead }
      | _ => none
  | .outerExit =>
      match s.pc with
      | .loopHead =>
          if 0 < s.filesLeft then none
          else some { s with pc := .returned (sumCounts s.entries) }
      | _ => none

/--
What `read(fd, buff, sizeof(buff))` may return: some of the next bytes, zero
exactly at the end of an open stream, or -1 (`EAGAIN`, or `EBADF` once closed).
-/
def ReadReturns
    (c : Call)
    (k : KernelState)
    (fd cnt : Int) : Prop :=
  cnt = -1 ∨
  (k.closed fd = false ∧
    ((1 ≤ cnt ∧ cnt ≤ bufSize ∧ k.pos fd + cnt ≤ (c.stream fd).length) ∨
      (cnt = 0 ∧ k.pos fd = (c.stream fd).length)))

instance (c : Call) (k : KernelState) (fd cnt : Int) :
    Decidable (ReadReturns c k fd cnt) :=
  inferInstanceAs (Decidable (_ ∨ _))

/-- The entry whose event the inner loop is about to process. -/
def entryInProcess
    {N : Nat}
    (s : State N) : Option (Fin N) :=
  match s.pc with
  | .inner n i =>
      if i < toSizeT n ∧ i < maxEvents then (s.pending i).dataPtr else none
  | _ => none

/-- `epoll_wait` succeeds with any events of registered entries. -/
def KernelContract
    (c : Call)
    (s : State c.N) :
    Label c.N → Prop
  | .epollWait n ready =>
      n = ready.length ∧
      ready.length ≤ maxEvents ∧
      ∀ ev ∈ ready, ev.dataPtr.isSome
  | .event cnt =>
      ∀ e ∈ entryInProcess s, ReadReturns c s.kernel (s.entries e).fd cnt
  | _ => True

instance (c : Call) (s : State c.N) :
    (a : Label c.N) → Decidable (KernelContract c s a)
  | .epollWait _ _ => inferInstanceAs (Decidable (_ ∧ _ ∧ _))
  | .event _ => inferInstanceAs (Decidable (∀ e ∈ entryInProcess s, _))
  | .innerExit => inferInstanceAs (Decidable True)
  | .outerExit => inferInstanceAs (Decidable True)

/--
Every event reports input of a descriptor that is not closed yet, whatever else
it reports, and a batch has at most one event per descriptor.
-/
def FirstDeliveries
    (c : Call)
    (s : State c.N) :
    Label c.N → Prop
  | .epollWait _ ready =>
      (ready.map EpollEvent.dataPtr).Nodup ∧
      ∀ ev ∈ ready,
        ev.events &&& epollIn ≠ 0 ∧
        ∀ e ∈ ev.dataPtr, s.kernel.closed (c.fds e) = false
  | _ => True

instance (c : Call) (s : State c.N) :
    (a : Label c.N) → Decidable (FirstDeliveries c s a)
  | .epollWait _ ready =>
      inferInstanceAs (Decidable (_ ∧ ∀ ev ∈ ready, _ ∧ ∀ e ∈ ev.dataPtr, _))
  | .event _ => inferInstanceAs (Decidable True)
  | .innerExit => inferInstanceAs (Decidable True)
  | .outerExit => inferInstanceAs (Decidable True)

def FirstDeliveryContract
    (c : Call)
    (s : State c.N)
    (a : Label c.N) : Prop :=
  KernelContract c s a ∧ FirstDeliveries c s a

instance (c : Call) (s : State c.N) (a : Label c.N) :
    Decidable (FirstDeliveryContract c s a) :=
  inferInstanceAs (Decidable (_ ∧ _))

/-- `read_data_and_count` under a contract on the kernel. -/
def system
    (c : Call)
    (contract : State c.N → Label c.N → Prop) :
    TransitionSystem (State c.N) (Label c.N) :=
  .ofProgram (fun s => s = c.start) contract next

end EpollReadFdsVector
end Networking
end OsSeminars
