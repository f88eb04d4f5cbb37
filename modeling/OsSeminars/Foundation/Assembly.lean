import Mathlib.Data.List.Infix
import Mathlib.Logic.Relation
import Mathlib.Tactic.Common

/-!
# Foundation: routines in assembly language

A routine is a list of lines, each a label or an instruction. The instruction set
is a parameter: a partial function `exec` that gives the state after an
instruction and where control goes. Control goes to the next line, to a label, or
out of the routine with a value such as the address returned to. An instruction
without a result stops the machine, which models a fault.

The machine is deterministic, so a routine terminates when its run reaches a
returned configuration. A run is put together from blocks, jumps and labels.
-/

namespace OsSeminars
namespace Foundation
namespace Assembly

universe u v w x

/-- A line of a routine. -/
inductive Line
    (L : Type u)
    (I : Type v)
  | label (l : L)
  | instr (i : I)
deriving DecidableEq

/-- Where control goes after an instruction. -/
inductive Flow
    (L : Type u)
    (ρ : Type w)
  | next
  | jump (l : L)
  | leave (r : ρ)

/-- The machine is before a line of the routine, or it has left the routine. -/
inductive Config
    (σ : Type x)
    (ρ : Type w)
  | running (pc : Nat) (s : σ)
  | returned (r : ρ) (s : σ)

/-- The state of the machine, wherever control is. -/
def Config.state
    {σ : Type x}
    {ρ : Type w} :
    Config σ ρ → σ
  | .running _ s => s
  | .returned _ s => s

variable {L : Type u} [DecidableEq L] {I : Type v} {ρ : Type w} {σ : Type x}

/-- The line of a label. -/
def target
    (code : List (Line L I))
    (l : L) :
    Nat :=
  code.findIdx (fun line =>
    match line with
    | .label l' => decide (l' = l)
    | .instr _ => false)

/-- One step of the machine. -/
def step
    (exec : I → σ → Option (σ × Flow L ρ))
    (code : List (Line L I)) :
    Config σ ρ → Option (Config σ ρ)
  | .running pc s =>
      match code[pc]? with
      | none => none
      | some (.label _) => some (.running (pc + 1) s)
      | some (.instr i) =>
          match exec i s with
          | none => none
          | some (t, .next) => some (.running (pc + 1) t)
          | some (t, .jump l) => some (.running (target code l) t)
          | some (t, .leave r) => some (.returned r t)
  | .returned _ _ => none

/-- A finite run of the machine. -/
def Runs
    (exec : I → σ → Option (σ × Flow L ρ))
    (code : List (Line L I)) :
    Config σ ρ → Config σ ρ → Prop :=
  Relation.ReflTransGen (fun c d => step exec code c = some d)

/-- Execute instructions that all pass control to the next one. -/
def runBlock
    (exec : I → σ → Option (σ × Flow L ρ)) :
    List I → σ → Option σ
  | [], s => some s
  | i :: block, s =>
      match exec i s with
      | some (t, .next) => runBlock exec block t
      | _ => none

variable
  {exec : I → σ → Option (σ × Flow L ρ)}
  {code : List (Line L I)}
  {c d e : Config σ ρ}
  {s t : σ}
  {pc : Nat}

section Runs

theorem Runs.refl
    (c : Config σ ρ) :
    Runs exec code c c :=
  Relation.ReflTransGen.refl

theorem Runs.trans
    (h : Runs exec code c d)
    (h' : Runs exec code d e) :
    Runs exec code c e :=
  Relation.ReflTransGen.trans h h'

theorem Runs.head
    (h : step exec code c = some d)
    (h' : Runs exec code d e) :
    Runs exec code c e :=
  Relation.ReflTransGen.head h h'

/-- Two runs from one configuration: one is a part of the other. -/
theorem Runs.total
    (h : Runs exec code c d)
    (h' : Runs exec code c e) :
    Runs exec code d e ∨ Runs exec code e d :=
  Relation.ReflTransGen.total_of_right_unique
    (fun _ _ _ hb hc => Option.some.inj (hb.symm.trans hc)) h h'

/-- What has been left stays left. -/
theorem Runs.of_returned
    {r : ρ}
    (h : Runs exec code (.returned r s) c) :
    c = .returned r s := by
  rcases Relation.ReflTransGen.cases_head h with heq | ⟨d, hstep, -⟩
  · exact heq.symm
  · cases hstep

/-- A run that comes to a fault never returns. -/
theorem Runs.not_returned_of_fault
    {r : ρ}
    {i : I}
    (h : Runs exec code c (.running pc s))
    (hline : code[pc]? = some (.instr i))
    (hfault : exec i s = none) :
    ¬ Runs exec code c (.returned r t) := by
  have hstuck : step exec code (.running pc s) = none := by
    simp only [step, hline, hfault]
  intro hreturned
  rcases h.total hreturned with h | h
  · rcases Relation.ReflTransGen.cases_head h with heq | ⟨d, hstep, -⟩
    · cases heq
    · rw [hstuck] at hstep
      cases hstep
  · cases h.of_returned

/-- One step leaves the state as it is or executes an instruction in it. -/
theorem state_of_step
    (hstep : step exec code (.running pc s) = some d) :
    d.state = s ∨ ∃ i flow, exec i s = some (d.state, flow) := by
  simp only [step] at hstep
  split at hstep
  · cases hstep
  · cases hstep
    exact Or.inl rfl
  · next i _ =>
      split at hstep
      · cases hstep
      · next hexec =>
          cases hstep
          exact Or.inr ⟨i, _, hexec⟩
      · next hexec =>
          cases hstep
          exact Or.inr ⟨i, _, hexec⟩
      · next hexec =>
          cases hstep
          exact Or.inr ⟨i, _, hexec⟩

/-- What every instruction does to the state, a run does, if it is a preorder. -/
theorem Runs.state_rel
    {R : σ → σ → Prop}
    (hrefl : ∀ s, R s s)
    (htrans : ∀ s t u, R s t → R t u → R s u)
    (hexec : ∀ i s t flow, exec i s = some (t, flow) → R s t)
    (h : Runs exec code c d) :
    R c.state d.state := by
  induction h with
  | refl =>
      exact hrefl _
  | @tail d e _ hstep ih =>
      refine htrans _ _ _ ih ?_
      cases d with
      | returned r s =>
          cases hstep
      | running pc s =>
          rcases state_of_step hstep with hsame | ⟨i, flow, hinstr⟩
          · rw [hsame]
            exact hrefl _
          · exact hexec i s e.state flow hinstr

end Runs

section Straight

/-- No instruction of the routine jumps. -/
def Straight
    (exec : I → σ → Option (σ × Flow L ρ))
    (code : List (Line L I)) :
    Prop :=
  ∀ i s t l, Line.instr i ∈ code → exec i s ≠ some (t, .jump l)

/-- Without jumps a step goes to the next line or leaves the routine. -/
theorem Straight.step
    (hstraight : Straight exec code)
    {pc' : Nat}
    (hstep : step exec code (.running pc s) = some (.running pc' t)) :
    pc' = pc + 1 := by
  simp only [Assembly.step] at hstep
  split at hstep
  · cases hstep
  · cases hstep
    rfl
  · next i hline =>
      split at hstep
      · cases hstep
      · cases hstep
        rfl
      · next hexec =>
          exact absurd hexec (hstraight i _ _ _ (List.mem_of_getElem? hline))
      · cases hstep

/-- Without jumps no line is reached twice. -/
theorem Straight.runs
    (hstraight : Straight exec code)
    (h : Runs exec code (.running pc s) c) :
    ∀ pc' t, c = .running pc' t → pc < pc' ∨ pc = pc' ∧ s = t := by
  induction h with
  | refl =>
      rintro pc' t ⟨⟩
      exact Or.inr ⟨rfl, rfl⟩
  | @tail d e _ hstep ih =>
      rintro pc' t rfl
      cases d with
      | returned r u =>
          cases hstep
      | running pc'' u =>
          left
          rw [hstraight.step hstep]
          rcases ih pc'' u rfl with hlt | ⟨rfl, -⟩
          · exact Nat.lt_succ_of_lt hlt
          · exact Nat.lt_succ_self _

/-- Without jumps there is one state at a line. -/
theorem Straight.state_unique
    (hstraight : Straight exec code)
    (h : Runs exec code c (.running pc s))
    (h' : Runs exec code c (.running pc t)) :
    s = t := by
  rcases h.total h' with hruns | hruns
  · rcases hstraight.runs hruns pc t rfl with hlt | ⟨-, heq⟩
    · exact absurd hlt (Nat.lt_irrefl pc)
    · exact heq
  · rcases hstraight.runs hruns pc s rfl with hlt | ⟨-, heq⟩
    · exact absurd hlt (Nat.lt_irrefl pc)
    · exact heq.symm

end Straight

section Rules

/-- A label does nothing. -/
theorem Runs.label
    {l : L}
    (hline : code[pc]? = some (.label l)) :
    Runs exec code (.running pc s) (.running (pc + 1) s) :=
  Runs.head (by simp only [step, hline]) (Runs.refl _)

theorem Runs.next
    {i : I}
    (hline : code[pc]? = some (.instr i))
    (hexec : exec i s = some (t, .next)) :
    Runs exec code (.running pc s) (.running (pc + 1) t) :=
  Runs.head (by simp only [step, hline, hexec]) (Runs.refl _)

theorem Runs.jump
    {i : I}
    {l : L}
    {pc' : Nat}
    (hline : code[pc]? = some (.instr i))
    (hexec : exec i s = some (t, .jump l))
    (htarget : target code l = pc') :
    Runs exec code (.running pc s) (.running pc' t) :=
  Runs.head (by simp only [step, hline, hexec, htarget]) (Runs.refl _)

theorem Runs.leave
    {i : I}
    {r : ρ}
    (hline : code[pc]? = some (.instr i))
    (hexec : exec i s = some (t, .leave r)) :
    Runs exec code (.running pc s) (.returned r t) :=
  Runs.head (by simp only [step, hline, hexec]) (Runs.refl _)

/-- A block that stands in the routine is executed as a whole. -/
theorem Runs.block
    (block : List I)
    (hlines : block.map Line.instr <+: code.drop pc)
    (hrun : runBlock exec block s = some t) :
    Runs exec code (.running pc s) (.running (pc + block.length) t) := by
  induction block generalizing pc s with
  | nil =>
      cases hrun
      exact Runs.refl _
  | cons i block ih =>
      obtain ⟨rest, hrest⟩ := hlines
      have hline : code[pc]? = some (.instr i) := by
        have hhead := congrArg (fun lines => lines[0]?) hrest
        simpa using hhead.symm
      have htail : block.map Line.instr <+: code.drop (pc + 1) := by
        refine ⟨rest, ?_⟩
        have hdrop := congrArg (List.drop 1) hrest
        simpa [List.drop_drop] using hdrop
      simp only [runBlock] at hrun
      cases hexec : exec i s with
      | none =>
          simp [hexec] at hrun
      | some p =>
          obtain ⟨s', flow⟩ := p
          cases flow with
          | next =>
              rw [hexec] at hrun
              have hrest := ih htail hrun
              rw [List.length_cons, Nat.add_comm block.length, ← Nat.add_assoc]
              exact Runs.trans (Runs.next hline hexec) hrest
          | jump l =>
              simp [hexec] at hrun
          | leave r =>
              simp [hexec] at hrun

end Rules

end Assembly
end Foundation
end OsSeminars
