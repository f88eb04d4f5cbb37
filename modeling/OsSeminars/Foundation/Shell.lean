import Mathlib.Data.List.DropRight

/-!
# Foundation: shell commands and their exit status

A command changes the state of the shell and leaves an exit status, which the next
command finds in `$?`. What a simple command does is a function of both. The status of a
list of commands is the one of the last command that has been executed; a loop without
words has the status zero.

A triple says what holds of the state and the status behind a command. There is one rule
for each kind of command, and the one for loops has an invariant that depends on the words
that have been gone through.
-/

namespace OsSeminars
namespace Foundation
namespace Shell

universe u

/-- The commands of a shell whose variables, files and output are of type `σ`. -/
inductive Cmd (σ : Type u)
  | simple (run : σ → Nat → σ × Nat)
  | seq (first second : Cmd σ)
  | ifThenElse (condition thenPart elsePart : Cmd σ)
  | forIn (words : σ → List String) (assign : String → σ → σ) (body : Cmd σ)

variable {σ : Type u}

/-- Execute a command. -/
def exec :
    Cmd σ → σ × Nat → σ × Nat
  | .simple run, p => run p.1 p.2
  | .seq first second, p => exec second (exec first p)
  | .ifThenElse condition thenPart elsePart, p =>
      if (exec condition p).2 = 0 then exec thenPart (exec condition p)
      else exec elsePart (exec condition p)
  | .forIn words assign body, p =>
      match words p.1 with
      | [] => (p.1, 0)
      | word :: rest =>
          (word :: rest).foldl (fun p word => exec body (assign word p.1, p.2)) p

/-- What a command substitution stands for: the output without the line breaks at its
end. -/
def substituted
    (output : String) :
    String :=
  String.ofList (output.toList.rdropWhile (· = '\n'))

/-- Commands one after another. -/
def Cmd.block
    (first : Cmd σ) :
    List (Cmd σ) → Cmd σ
  | [] => first
  | second :: rest => .seq first (block second rest)

/-- From a state and a status with `P` the command leads to ones with `Q`. -/
def Triple
    (P : σ → Nat → Prop)
    (c : Cmd σ)
    (Q : σ → Nat → Prop) :
    Prop :=
  ∀ p : σ × Nat, P p.1 p.2 → Q (exec c p).1 (exec c p).2

variable {P Q R : σ → Nat → Prop}

/-- A simple command in front of others. -/
theorem exec_seq_simple
    (run : σ → Nat → σ × Nat)
    (second : Cmd σ)
    (p : σ × Nat) :
    exec (.seq (.simple run) second) p = exec second (run p.1 p.2) := by
  rw [exec, exec]

theorem triple_simple
    {run : σ → Nat → σ × Nat}
    (h : ∀ s status, P s status → Q (run s status).1 (run s status).2) :
    Triple P (.simple run) Q :=
  fun p hp => h p.1 p.2 hp

theorem Triple.seq
    {first second : Cmd σ}
    (hfirst : Triple P first Q)
    (hsecond : Triple Q second R) :
    Triple P (.seq first second) R :=
  fun p hp => hsecond _ (hfirst p hp)

theorem Triple.ifThenElse
    {condition thenPart elsePart : Cmd σ}
    (hcondition : Triple P condition Q)
    (hthen : Triple (fun s status => Q s status ∧ status = 0) thenPart R)
    (helse : Triple (fun s status => Q s status ∧ status ≠ 0) elsePart R) :
    Triple P (.ifThenElse condition thenPart elsePart) R := by
  intro p hp
  have hq := hcondition p hp
  rw [exec]
  split_ifs with hzero
  · exact hthen _ ⟨hq, hzero⟩
  · exact helse _ ⟨hq, hzero⟩

/-- The rule for loops. The invariant holds of the words that have been gone through; the
status is zero in front of a loop without words. -/
theorem Triple.forIn
    {words : σ → List String}
    {assign : String → σ → σ}
    {body : Cmd σ}
    (I : List String → σ → Nat → Prop)
    (hbody : ∀ done word, Triple
      (fun s status => ∃ s₀, I done s₀ status ∧ s = assign word s₀) body
      (I (done ++ [word])))
    (all : List String) :
    Triple (fun s status => words s = all ∧ I [] s status ∧ I [] s 0)
      (.forIn words assign body) (I all) := by
  rintro p ⟨hwords, hstart, hzero⟩
  have hloop (rest done : List String) (q : σ × Nat) (hq : I done q.1 q.2) :
      I (done ++ rest)
        (rest.foldl (fun p word => exec body (assign word p.1, p.2)) q).1
        (rest.foldl (fun p word => exec body (assign word p.1, p.2)) q).2 := by
    induction rest generalizing done q with
    | nil =>
        rwa [List.append_nil]
    | cons word rest ih =>
        have hnext := hbody done word (assign word q.1, q.2) ⟨q.1, hq, rfl⟩
        have hrest := ih (done ++ [word]) _ hnext
        rwa [List.append_assoc] at hrest
  rw [exec, hwords]
  cases all with
  | nil =>
      exact hzero
  | cons word rest =>
      exact hloop (word :: rest) [] p hstart

end Shell
end Foundation
end OsSeminars
