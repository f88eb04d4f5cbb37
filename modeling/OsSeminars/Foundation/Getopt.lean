import Mathlib.Data.List.Basic
import Mathlib.Logic.Basic

/-!
# Foundation: `getopt`

`getopt` for an option string in which every option takes an argument, called until it
returns `-1`. It moves the options to the front, so they may stand anywhere between the
other arguments, and an argument that is `--` ends them. Which arguments are accepted, and
what they mean, is stated with a list of `Item`s that is written out.
-/

namespace OsSeminars
namespace Foundation
namespace Getopt

abbrev Arg : Type :=
  List UInt8

/-- `"--"` -/
def dashes :
    Arg :=
  [45, 45]

/-- What the calls return: the options with their arguments, and what remains of `argv`. -/
structure Parsed where
  options : List (UInt8 × Arg)
  operands : List Arg
  deriving DecidableEq

def Parsed.addOption
    (c : UInt8)
    (value : Arg)
    (r : Parsed) :
    Parsed :=
  { r with options := (c, value) :: r.options }

def Parsed.addOperand
    (arg : Arg)
    (r : Parsed) :
    Parsed :=
  { r with operands := arg :: r.operands }

/-- The calls of `getopt` for the arguments behind `argv[0]`; `pending` is an option whose
argument comes next. The result is `none` when a call returns `'?'`. -/
def parse
    (known : UInt8 → Bool) :
    Option UInt8 → List Arg → Option Parsed
  | some _, [] => none
  | some c, value :: rest => (parse known none rest).map (·.addOption c value)
  | none, [] => some ⟨[], []⟩
  | none, arg :: rest =>
      if arg = dashes then some ⟨[], rest⟩
      else
        match arg with
        | 45 :: c :: value =>
            if known c then
              if value = [] then parse known (some c) rest
              else (parse known none rest).map (·.addOption c value)
            else none
        | _ => (parse known none rest).map (·.addOperand arg)

/-- A single dash is not an option. -/
def IsOperand
    (arg : Arg) :
    Prop :=
  arg.head? ≠ some 45 ∨ arg = [45]

/-- An argument that is no option, or an option whose argument is an argument of its own or
follows directly. -/
inductive Item
  | operand (arg : Arg)
  | separate (c : UInt8) (value : Arg)
  | attached (c : UInt8) (value : Arg)

def Item.Valid
    (known : UInt8 → Bool) :
    Item → Prop
  | operand arg => IsOperand arg
  | separate c _ => known c = true
  | attached c value => known c = true ∧ value ≠ []

/-- How an item is written. -/
def Item.render : Item → List Arg
  | operand arg => [arg]
  | separate c value => [[45, c], value]
  | attached c value => [45 :: c :: value]

def Item.option : Item → Option (UInt8 × Arg)
  | operand _ => none
  | separate c value => some (c, value)
  | attached c value => some (c, value)

def Item.arg : Item → Option Arg
  | operand arg => some arg
  | _ => none

/-- What a list of items means, followed by arguments that are no options. -/
def meaning
    (items : List Item)
    (rest : List Arg) :
    Parsed where
  options := items.filterMap Item.option
  operands := items.filterMap Item.arg ++ rest

section Parsing

variable {known : UInt8 → Bool} {arg value : Arg} {rest : List Arg} {c : UInt8}

theorem parse_dashes :
    parse known none (dashes :: rest) = some ⟨[], rest⟩ :=
  rfl

theorem parse_operand
    (h : IsOperand arg) :
    parse known none (arg :: rest) = (parse known none rest).map (·.addOperand arg) := by
  have hne : arg ≠ dashes := by
    rintro rfl
    rcases h with hhead | hone
    · exact hhead rfl
    · cases hone
  rw [parse, if_neg hne]
  intro c value hsame
  rw [hsame] at h
  rcases h with hhead | hone
  · exact hhead rfl
  · cases hone

theorem parse_separate
    (hdash : c ≠ 45)
    (h : known c = true) :
    parse known none ([45, c] :: value :: rest) =
      (parse known none rest).map (·.addOption c value) := by
  have hne : [45, c] ≠ dashes := by
    intro hsame
    exact hdash (List.cons.inj (List.cons.inj hsame).2).1
  rw [parse, if_neg hne]
  simp only [h, if_true]
  rfl

theorem parse_attached
    (h : known c = true)
    (hvalue : value ≠ []) :
    parse known none ((45 :: c :: value) :: rest) =
      (parse known none rest).map (·.addOption c value) := by
  have hne : 45 :: c :: value ≠ dashes := by
    intro hsame
    exact hvalue (List.cons.inj (List.cons.inj hsame).2).2
  rw [parse, if_neg hne]
  simp only [h, if_true, if_neg hvalue]

/-- Items in front of arguments that are parsed. -/
theorem parse_render_append
    {items : List Item}
    (hdash : known 45 = false)
    (hvalid : ∀ item ∈ items, item.Valid known)
    (rest : List Arg) :
    parse known none (items.flatMap Item.render ++ rest) =
      (parse known none rest).map fun r =>
        ⟨items.filterMap Item.option ++ r.options, items.filterMap Item.arg ++ r.operands⟩ := by
  induction items with
  | nil =>
      simp
  | cons item items ih =>
      have hrest := ih fun item hitem => hvalid item (List.mem_cons_of_mem _ hitem)
      have hitem := hvalid item List.mem_cons_self
      rw [List.flatMap_cons, List.append_assoc]
      cases item with
      | operand arg =>
          have hparse : parse known none (arg :: (items.flatMap Item.render ++ rest)) = _ :=
            parse_operand hitem
          rw [Item.render, List.singleton_append, hparse, hrest, Option.map_map]
          rfl
      | separate c value =>
          have hne : c ≠ 45 := by
            rintro rfl
            rw [Item.Valid, hdash] at hitem
            cases hitem
          have hparse : parse known none
              ([45, c] :: value :: (items.flatMap Item.render ++ rest)) = _ :=
            parse_separate hne hitem
          rw [Item.render, List.cons_append, List.singleton_append, hparse, hrest,
            Option.map_map]
          rfl
      | attached c value =>
          have hparse : parse known none
              ((45 :: c :: value) :: (items.flatMap Item.render ++ rest)) = _ :=
            parse_attached hitem.1 hitem.2
          rw [Item.render, List.singleton_append, hparse, hrest, Option.map_map]
          rfl

/-- Where the items stand among each other does not matter, except for the order of the
options and that of the operands. -/
theorem parse_render
    {items : List Item}
    (hdash : known 45 = false)
    (hvalid : ∀ item ∈ items, item.Valid known) :
    parse known none (items.flatMap Item.render) = some (meaning items []) := by
  have happend := parse_render_append hdash hvalid []
  rw [List.append_nil] at happend
  rw [happend]
  simp [parse, meaning]

theorem parse_render_dashes
    {items : List Item}
    (hdash : known 45 = false)
    (hvalid : ∀ item ∈ items, item.Valid known)
    (rest : List Arg) :
    parse known none (items.flatMap Item.render ++ dashes :: rest) =
      some (meaning items rest) := by
  rw [parse_render_append hdash hvalid]
  simp [parse, meaning]

/-- The arguments are written-out items, possibly followed by `--` and other arguments. -/
def Written
    (known : UInt8 → Bool)
    (args : List Arg)
    (r : Parsed) :
    Prop :=
  ∃ items, (∀ item ∈ items, item.Valid known) ∧
    ((args = items.flatMap Item.render ∧ r = meaning items []) ∨
      ∃ rest, args = items.flatMap Item.render ++ dashes :: rest ∧ r = meaning items rest)

theorem Written.cons
    {args : List Arg}
    {r : Parsed}
    {item : Item}
    (h : Written known args r)
    (hitem : item.Valid known) :
    Written known (item.render ++ args)
      ⟨item.option.toList ++ r.options, item.arg.toList ++ r.operands⟩ := by
  obtain ⟨items, hvalid, hcase⟩ := h
  refine ⟨item :: items, ?_, ?_⟩
  · intro i hi
    rcases List.mem_cons.mp hi with rfl | hi
    · exact hitem
    · exact hvalid i hi
  · rcases hcase with ⟨rfl, rfl⟩ | ⟨rest, rfl, rfl⟩
    · refine Or.inl ⟨by rw [List.flatMap_cons], ?_⟩
      cases item <;> simp [meaning, List.filterMap_cons, Item.option, Item.arg]
    · refine Or.inr ⟨rest, by rw [List.flatMap_cons, List.append_assoc], ?_⟩
      cases item <;> simp [meaning, List.filterMap_cons, Item.option, Item.arg]

theorem eq_cons_of_not_isOperand
    (h : ¬ IsOperand arg) :
    ∃ c value, arg = 45 :: c :: value := by
  rw [IsOperand, not_or, not_not] at h
  obtain ⟨hhead, hmore⟩ := h
  cases arg with
  | nil =>
      cases hhead
  | cons d arg =>
      cases hhead
      cases arg with
      | nil =>
          exact absurd rfl hmore
      | cons c value =>
          exact ⟨c, value, rfl⟩

/-- What is accepted is well formed. -/
theorem written_of_parse
    {args : List Arg}
    {r : Parsed}
    (h : parse known none args = some r) :
    Written known args r := by
  induction hn : args.length using Nat.strongRecOn generalizing args r with
  | ind n ih =>
      cases args with
      | nil =>
          cases h
          exact ⟨[], by simp, Or.inl ⟨rfl, rfl⟩⟩
      | cons arg rest =>
          rw [List.length_cons] at hn
          by_cases hdashes : arg = dashes
          · rw [hdashes, parse_dashes] at h
            cases h
            exact ⟨[], by simp, Or.inr ⟨rest, by rw [hdashes]; rfl, rfl⟩⟩
          by_cases hoperand : IsOperand arg
          · rw [parse_operand hoperand, Option.map_eq_some_iff] at h
            obtain ⟨r, hr, rfl⟩ := h
            have hitem : (Item.operand arg).Valid known := hoperand
            exact (ih rest.length (by omega) hr rfl).cons hitem
          obtain ⟨c, value, rfl⟩ := eq_cons_of_not_isOperand hoperand
          rw [parse, if_neg hdashes] at h
          split_ifs at h with hknown hempty
          · subst hempty
            cases rest with
            | nil =>
                cases h
            | cons value rest =>
                rw [parse, Option.map_eq_some_iff] at h
                obtain ⟨r, hr, rfl⟩ := h
                rw [List.length_cons] at hn
                have hitem : (Item.separate c value).Valid known := hknown
                exact (ih rest.length (by omega) hr rfl).cons hitem
          · rw [Option.map_eq_some_iff] at h
            obtain ⟨r, hr, rfl⟩ := h
            have hitem : (Item.attached c value).Valid known := ⟨hknown, hempty⟩
            exact (ih rest.length (by omega) hr rfl).cons hitem

/-- Exactly the arguments that are written-out items are accepted. -/
theorem parse_eq_some_iff
    (hdash : known 45 = false)
    {args : List Arg}
    {r : Parsed} :
    parse known none args = some r ↔ Written known args r := by
  constructor
  · exact written_of_parse
  · rintro ⟨items, hvalid, ⟨rfl, rfl⟩ | ⟨rest, rfl, rfl⟩⟩
    · exact parse_render hdash hvalid
    · exact parse_render_dashes hdash hvalid rest

end Parsing

end Getopt

end Foundation
end OsSeminars
