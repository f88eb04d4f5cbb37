import OsSeminars.Foundation.FdTable
import OsSeminars.Foundation.FileContents

/-!
# Foundation: open file descriptions

A descriptor refers to an open file description, and the description to a file. The
offset of reads and writes belongs to the description: every `open` makes a new one,
with offset zero, while `dup` and `dup2` let a further number refer to an old one. So
writes through several numbers of one description come one behind the other, and writes
through two descriptions of one file over each other.

A description in append mode writes to the end of its file wherever its offset is, as
terminals do. What a process reads and writes is kept per file, whatever names lead to
it.
-/

namespace OsSeminars
namespace Foundation

universe u v

/-- An open file description. -/
structure Description (ι : Type u) where
  file : ι
  offset : Nat
  appends : Bool
deriving DecidableEq

/-- The files of a system, and the descriptors of one process. -/
structure OpenFiles (ι : Type u) where
  contents : ι → List UInt8
  descriptions : List (Description ι)
  table : FdTable Nat
  valid : ∀ fd n, table.entry fd = some n → n < descriptions.length

namespace OpenFiles

variable {ι : Type u}

/-- A call that may fail for other reasons than its arguments. -/
def attempt
    {β : Type v}
    (succeeds : Bool)
    (result : Option β) :
    Option β :=
  if succeeds then result else none

theorem attempt_eq_some
    {β : Type v}
    {succeeds : Bool}
    {result : Option β}
    {b : β}
    (h : attempt succeeds result = some b) :
    result = some b := by
  rw [attempt] at h
  split_ifs at h
  exact h

/-- `open` of an existing file or, with `O_CREAT`, of an empty one: the lowest free
number refers to a new description. -/
def openFile
    (s : OpenFiles ι)
    (file : ι) :
    Option (Nat × OpenFiles ι) :=
  match h : s.table.alloc s.descriptions.length with
  | none => none
  | some (fd, table) =>
      some
        (fd,
          { s with
            descriptions := s.descriptions ++ [⟨file, 0, false⟩]
            table := table
            valid := by
              intro fd' n hn
              rw [(FdTable.alloc_eq_some h).2.2, Function.update_apply] at hn
              rw [List.length_append, List.length_singleton]
              split_ifs at hn
              · cases hn
                exact Nat.lt_succ_self _
              · exact Nat.lt_succ_of_lt (s.valid fd' n hn) })

/-- `dup`: the lowest free number refers to the description of `fd`. -/
def dup
    (s : OpenFiles ι)
    (fd : Nat) :
    Option (Nat × OpenFiles ι) :=
  match hfd : s.table.entry fd with
  | none => none
  | some n =>
      match h : s.table.alloc n with
      | none => none
      | some (newfd, table) =>
          some
            (newfd,
              { s with
                table := table
                valid := by
                  intro fd' m hm
                  rw [(FdTable.alloc_eq_some h).2.2, Function.update_apply] at hm
                  split_ifs at hm
                  · cases hm
                    exact s.valid fd n hfd
                  · exact s.valid fd' m hm })

/-- `dup2`, which returns the new number. -/
def dup2
    (s : OpenFiles ι)
    (oldfd newfd : Nat) :
    Option (Nat × OpenFiles ι) :=
  match h : s.table.dup2 oldfd newfd with
  | none => none
  | some table =>
      some
        (newfd,
          { s with
            table := table
            valid := by
              intro fd' n hn
              rw [FdTable.dup2_eq_some h, Function.update_apply] at hn
              split_ifs at hn
              · exact s.valid oldfd n hn
              · exact s.valid fd' n hn })

/-- `close`. -/
def close
    (s : OpenFiles ι)
    (fd : Nat) :
    OpenFiles ι :=
  { s with
    table := s.table.close fd
    valid := by
      intro fd' n hn
      rw [FdTable.close_entry, Function.update_apply] at hn
      split_ifs at hn
      exact s.valid fd' n hn }

/-- The description that a number refers to. -/
def description
    (s : OpenFiles ι)
    (fd : Nat) :
    Option (Description ι) :=
  (s.table.entry fd).bind fun n => s.descriptions[n]?

/-- Replace a description. -/
def setDescription
    (s : OpenFiles ι)
    (n : Nat)
    (d : Description ι) :
    OpenFiles ι :=
  { s with
    descriptions := s.descriptions.set n d
    valid := by
      intro fd m hm
      rw [List.length_set]
      exact s.valid fd m hm }

/-- `write` of the bytes that the call transfers; nothing happens for a number that is
not in use. -/
def write
    [DecidableEq ι]
    (s : OpenFiles ι)
    (fd : Nat)
    (bytes : List UInt8) :
    OpenFiles ι :=
  match s.table.entry fd with
  | none => s
  | some n =>
      match s.descriptions[n]? with
      | none => s
      | some d =>
          if bytes = [] then s
          else
            let old := s.contents d.file
            let position := if d.appends then old.length else d.offset
            { s.setDescription n { d with offset := position + bytes.length } with
              contents :=
                Function.update s.contents d.file
                  (FileContents.writeAt old position bytes) }

/-- Writes one after another, each through a number of its own. -/
def writes
    [DecidableEq ι]
    (s : OpenFiles ι)
    (calls : List (Nat × List UInt8)) :
    OpenFiles ι :=
  calls.foldl (fun s call => s.write call.1 call.2) s

section Calls

variable {s t : OpenFiles ι} {file : ι} {fd newfd oldfd : Nat}

/-- A new description under a number that was free, all lower ones being in use. -/
theorem openFile_eq_some
    (h : s.openFile file = some (fd, t)) :
    s.table.entry fd = none ∧
    (∀ fd', fd' < fd → s.table.entry fd' ≠ none) ∧
    t.table.entry = Function.update s.table.entry fd (some s.descriptions.length) ∧
    t.descriptions = s.descriptions ++ [⟨file, 0, false⟩] ∧
    t.contents = s.contents := by
  unfold openFile at h
  split at h
  · cases h
  · rename_i fd' table halloc
    cases h
    obtain ⟨hfree, hlow, hentry⟩ := FdTable.alloc_eq_some halloc
    exact ⟨hfree, hlow, hentry, rfl, rfl⟩

/-- The numbers in use lead to what they have led to. -/
theorem openFile_description
    (h : s.openFile file = some (fd, t))
    {other : Nat}
    (hother : s.table.entry other ≠ none) :
    t.table.entry other = s.table.entry other ∧ t.description other = s.description other := by
  obtain ⟨hfree, -, hentry, hdescriptions, -⟩ := openFile_eq_some h
  have hne : other ≠ fd := by
    rintro rfl
    exact hother hfree
  have hsame : t.table.entry other = s.table.entry other := by
    rw [hentry, Function.update_of_ne hne]
  refine ⟨hsame, ?_⟩
  rw [description, description, hsame]
  cases hn : s.table.entry other with
  | none =>
      exact absurd hn hother
  | some n =>
      rw [Option.bind_some, Option.bind_some, hdescriptions,
        List.getElem?_append_left (s.valid other n hn)]

theorem dup_eq_some
    (h : s.dup fd = some (newfd, t)) :
    s.table.entry fd ≠ none ∧
    s.table.entry newfd = none ∧
    t.table.entry = Function.update s.table.entry newfd (s.table.entry fd) ∧
    t.descriptions = s.descriptions ∧
    t.contents = s.contents := by
  unfold dup at h
  split at h
  · cases h
  · rename_i n hfd
    split at h
    · cases h
    · rename_i newfd' table halloc
      cases h
      obtain ⟨hfree, -, hentry⟩ := FdTable.alloc_eq_some halloc
      exact ⟨by rw [hfd]; exact Option.some_ne_none n, hfree,
        hentry.trans (by rw [hfd]), rfl, rfl⟩

theorem dup2_eq_some
    {fd : Nat}
    (h : s.dup2 oldfd newfd = some (fd, t)) :
    fd = newfd ∧
    t.table.entry = Function.update s.table.entry newfd (s.table.entry oldfd) ∧
    t.descriptions = s.descriptions ∧
    t.contents = s.contents := by
  unfold dup2 at h
  split at h
  · cases h
  · rename_i table hdup2
    cases h
    exact ⟨rfl, FdTable.dup2_eq_some hdup2, rfl, rfl⟩

/-- Two numbers that were free are free again when they are closed. -/
theorem update_closed
    {entry : Nat → Option Nat}
    {fd fd' : Nat}
    (hfd : entry fd = none)
    (hfd' : entry fd' = none)
    (x y : Option Nat) :
    Function.update (Function.update (Function.update (Function.update entry fd x) fd' y)
      fd none) fd' none = entry := by
  funext k
  by_cases hk' : k = fd'
  · rw [hk', Function.update_self, hfd']
  · rw [Function.update_of_ne hk']
    by_cases hk : k = fd
    · rw [hk, Function.update_self, hfd]
    · rw [Function.update_of_ne hk, Function.update_of_ne hk', Function.update_of_ne hk]

@[simp] theorem close_entry
    (s : OpenFiles ι)
    (fd : Nat) :
    (s.close fd).table.entry = Function.update s.table.entry fd none :=
  FdTable.close_entry s.table fd

@[simp] theorem close_contents
    (s : OpenFiles ι)
    (fd : Nat) :
    (s.close fd).contents = s.contents :=
  rfl

@[simp] theorem close_descriptions
    (s : OpenFiles ι)
    (fd : Nat) :
    (s.close fd).descriptions = s.descriptions :=
  rfl

/-- A description at an offset inside of its file, not in append mode. -/
structure At
    (s : OpenFiles ι)
    (n : Nat)
    (file : ι)
    (offset : Nat) :
    Prop where
  description : s.descriptions[n]? = some ⟨file, offset, false⟩
  inside : offset ≤ (s.contents file).length

/-- At offset zero a description is inside of its file. -/
theorem at_zero
    {n : Nat}
    (h : s.descriptions[n]? = some ⟨file, 0, false⟩) :
    s.At n file 0 :=
  ⟨h, Nat.zero_le _⟩

/-- A number that refers to another file refers to another description. -/
theorem At.entry_ne
    {n offset : Nat}
    (h : s.At n file offset)
    (hfile : ∀ d, s.description fd = some d → d.file ≠ file) :
    s.table.entry fd ≠ some n := by
  intro hfd
  refine hfile ⟨file, offset, false⟩ ?_ rfl
  rw [OpenFiles.description, hfd]
  exact h.description

end Calls

section Writing

variable [DecidableEq ι] {s : OpenFiles ι} {file : ι} {fd n offset : Nat}
  {bytes : List UInt8}

@[simp] theorem write_table
    (s : OpenFiles ι)
    (fd : Nat)
    (bytes : List UInt8) :
    (s.write fd bytes).table = s.table := by
  unfold write
  split
  · rfl
  · split
    · rfl
    · split_ifs <;> rfl

@[simp] theorem write_nil
    (s : OpenFiles ι)
    (fd : Nat) :
    s.write fd [] = s := by
  unfold write
  split
  · rfl
  · split
    · rfl
    · exact if_pos rfl

/-- Nothing is written through a number that is not in use. -/
theorem write_of_closed
    (h : s.table.entry fd = none)
    (bytes : List UInt8) :
    s.write fd bytes = s := by
  rw [write, h]

/-- A write through a number of another description. -/
theorem write_description
    {other : Nat}
    (hother : s.table.entry other ≠ s.table.entry fd)
    (bytes : List UInt8) :
    (s.write fd bytes).description other = s.description other := by
  rw [description, description, write_table]
  cases hfd : s.table.entry fd with
  | none =>
      rw [write_of_closed hfd]
  | some n =>
      cases hn : s.table.entry other with
      | none =>
          rfl
      | some m =>
          have hne : n ≠ m := by
            rintro rfl
            exact hother (hn.trans hfd.symm)
          rw [Option.bind_some, Option.bind_some, write, hfd]
          dsimp only
          split
          · rfl
          · by_cases hbytes : bytes = []
            · rw [if_pos hbytes]
            · rw [if_neg hbytes]
              exact List.getElem?_set_ne hne

/-- A write changes no other file than the one that the number leads to. -/
theorem write_contents_of_ne
    (hfile : ∀ d, s.description fd = some d → d.file ≠ file)
    (bytes : List UInt8) :
    (s.write fd bytes).contents file = s.contents file := by
  unfold write
  split
  · rfl
  · rename_i n hn
    split
    · rfl
    · rename_i d hd
      have hne : d.file ≠ file := hfile d (by rw [description, hn]; exact hd)
      by_cases hbytes : bytes = []
      · rw [if_pos hbytes]
      · rw [if_neg hbytes]
        exact Function.update_of_ne hne.symm _ _

/-- A write through a number of the description. -/
theorem At.write
    (h : s.At n file offset)
    (hfd : s.table.entry fd = some n)
    (bytes : List UInt8) :
    (s.write fd bytes).At n file (offset + bytes.length) ∧
    (s.write fd bytes).contents =
      Function.update s.contents file
        (FileContents.writeAt (s.contents file) offset bytes) ∧
    (s.write fd bytes).descriptions =
      s.descriptions.set n ⟨file, offset + bytes.length, false⟩ := by
  obtain ⟨hlt, hget⟩ := List.getElem?_eq_some_iff.mp h.description
  by_cases hbytes : bytes = []
  · subst hbytes
    rw [write_nil, FileContents.writeAt_nil h.inside, Function.update_eq_self]
    refine ⟨h, rfl, ?_⟩
    rw [List.length_nil, Nat.add_zero, ← hget, List.set_getElem_self]
  · have hwrite :
        (s.write fd bytes).contents =
            Function.update s.contents file
              (FileContents.writeAt (s.contents file) offset bytes) ∧
          (s.write fd bytes).descriptions =
            s.descriptions.set n ⟨file, offset + bytes.length, false⟩ := by
      simp [OpenFiles.write, hfd, h.description, hbytes, setDescription]
    refine ⟨⟨?_, ?_⟩, hwrite⟩
    · rw [hwrite.2, List.getElem?_set_self hlt]
    · rw [hwrite.1, Function.update_self]
      exact FileContents.le_length_writeAt ..

/-- A write to another file. -/
theorem At.write_other
    (h : s.At n file offset)
    (hfile : ∀ d, s.description fd = some d → d.file ≠ file)
    (bytes : List UInt8) :
    (s.write fd bytes).At n file offset ∧
    (s.write fd bytes).contents file = s.contents file := by
  have hcontents := write_contents_of_ne hfile bytes
  have hdescription : (s.write fd bytes).descriptions[n]? = s.descriptions[n]? := by
    unfold OpenFiles.write
    split
    · rfl
    · rename_i m hm
      have hnm : m ≠ n := by
        rintro rfl
        exact h.entry_ne hfile hm
      split
      · rfl
      · by_cases hbytes : bytes = []
        · rw [if_pos hbytes]
        · rw [if_neg hbytes]
          exact List.getElem?_set_ne hnm
  refine ⟨⟨hdescription.trans h.description, ?_⟩, hcontents⟩
  rw [hcontents]
  exact h.inside

/-- Writes through the numbers of one description are one write of all their bytes. -/
theorem At.writes
    (h : s.At n file offset)
    (calls : List (Nat × List UInt8))
    (hcalls : ∀ call ∈ calls, s.table.entry call.1 = some n) :
    (s.writes calls).contents =
      Function.update s.contents file
        (FileContents.writeAt (s.contents file) offset (calls.map Prod.snd).flatten) ∧
    (s.writes calls).descriptions =
      s.descriptions.set n
        ⟨file, offset + (calls.map Prod.snd).flatten.length, false⟩ ∧
    (s.writes calls).table = s.table := by
  induction calls generalizing s offset with
  | nil =>
      obtain ⟨hlt, hget⟩ := List.getElem?_eq_some_iff.mp h.description
      refine ⟨?_, ?_, rfl⟩
      · simp only [OpenFiles.writes, List.foldl_nil, List.map_nil, List.flatten_nil,
          FileContents.writeAt_nil h.inside, Function.update_eq_self]
      · simp only [OpenFiles.writes, List.foldl_nil, List.map_nil, List.flatten_nil,
          List.length_nil, Nat.add_zero]
        rw [← hget, List.set_getElem_self]
  | cons call calls ih =>
      obtain ⟨hat, hcontents, hdescriptions⟩ :=
        h.write (hcalls call (List.mem_cons_self ..)) call.2
      obtain ⟨ihContents, ihDescriptions, ihTable⟩ := ih hat fun c hc => by
        rw [write_table]
        exact hcalls c (List.mem_cons_of_mem _ hc)
      refine ⟨?_, ?_, ihTable.trans (write_table ..)⟩
      · rw [OpenFiles.writes, List.foldl_cons, ← OpenFiles.writes, ihContents, hcontents,
          Function.update_self, Function.update_idem, FileContents.writeAt_writeAt,
          List.map_cons, List.flatten_cons]
      · rw [OpenFiles.writes, List.foldl_cons, ← OpenFiles.writes, ihDescriptions,
          hdescriptions, List.set_set, List.map_cons, List.flatten_cons, List.length_append,
          Nat.add_assoc]

/-- Two writes through numbers of one description. -/
theorem At.write_write
    (h : s.At n file offset)
    {fd' : Nat}
    (hfd : s.table.entry fd = some n)
    (hfd' : s.table.entry fd' = some n)
    (first second : List UInt8) :
    ((s.write fd first).write fd' second).contents =
      Function.update s.contents file
        (FileContents.writeAt (s.contents file) offset (first ++ second)) ∧
    ((s.write fd first).write fd' second).descriptions =
      s.descriptions.set n ⟨file, offset + (first ++ second).length, false⟩ ∧
    ((s.write fd first).write fd' second).table = s.table := by
  have hcalls := h.writes [(fd, first), (fd', second)] (by simp [hfd, hfd'])
  simpa only [OpenFiles.writes, List.foldl_cons, List.foldl_nil, List.map_cons, List.map_nil,
    List.flatten_cons, List.flatten_nil, List.append_nil] using hcalls

end Writing

end OpenFiles

end Foundation
end OsSeminars
