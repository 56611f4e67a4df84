import Mathlib.Data.List.Basic
import Mathlib.Logic.Relation

/-! Regular expressions with a negative lookahead and an end anchor. A match consumes a first part
of a text and leaves the rest; a lookahead reads the rest and leaves all of it.
-/

namespace SpeculativeAction.Library

/-- A regular expression over units of type `α`. -/
inductive Regex (α : Type*) where
  | unit (accepts : α → Bool)
  | sequence (first next : Regex α)
  | either (left right : Regex α)
  /-- `(?:body)+` -/
  | plus (body : Regex α)
  /-- `(?!body)` -/
  | notAhead (body : Regex α)
  /-- `$` -/
  | atEnd

namespace Regex

variable {α : Type*}

/-- `(regex.Matches text rest)` matches at the start of the text and leaves the rest. -/
def Matches : Regex α → List α → List α → Prop
  | unit accepts, text, rest => ∃ first, accepts first = true ∧ text = first :: rest
  | sequence first next, text, rest => ∃ middle, first.Matches text middle ∧ next.Matches middle rest
  | either left right, text, rest => left.Matches text rest ∨ right.Matches text rest
  | plus body, text, rest => Relation.TransGen body.Matches text rest
  | notAhead body, text, rest => text = rest ∧ ∀ after, ¬ body.Matches text after
  | atEnd, text, rest => text = [] ∧ rest = []

/-- `/^regex/.test(text)`. -/
def Accepts (regex : Regex α) (text : List α) : Prop := ∃ rest, regex.Matches text rest

section Rules

variable {accepts : α → Bool} {body first next : Regex α} {text rest : List α}

@[simp]
theorem matches_unit
    : (unit accepts).Matches text rest ↔ ∃ first, accepts first = true ∧ text = first :: rest :=
  Iff.rfl

@[simp]
theorem matches_sequence
    : (sequence first next).Matches text rest
      ↔ ∃ middle, first.Matches text middle ∧ next.Matches middle rest :=
  Iff.rfl

@[simp]
theorem matches_either
    : (either first next).Matches text rest ↔ first.Matches text rest ∨ next.Matches text rest :=
  Iff.rfl

@[simp]
theorem matches_notAhead
    : (notAhead body).Matches text rest ↔ text = rest ∧ ∀ after, ¬ body.Matches text after :=
  Iff.rfl

@[simp]
theorem matches_atEnd : (atEnd : Regex α).Matches text rest ↔ text = [] ∧ rest = [] :=
  Iff.rfl

theorem matches_plus : (plus body).Matches text rest ↔ Relation.TransGen body.Matches text rest :=
  Iff.rfl

/-- An anchored expression is repeated up to the end. -/
theorem accepts_anchored : (sequence body atEnd).Accepts text ↔ body.Matches text [] := by
  constructor
  · rintro ⟨_, middle, found, rfl, _⟩
    exact found
  · intro found
    exact ⟨[], [], found, rfl, rfl⟩

/-- A repeated class consumes a nonempty run of its units, and not always the longest one. -/
theorem matches_plus_unit
    : (plus (unit accepts)).Matches text rest
      ↔ ∃ run, run ≠ [] ∧ (∀ member ∈ run, accepts member = true) ∧ text = run ++ rest := by
  constructor
  · intro found
    induction found using Relation.TransGen.head_induction_on with
    | single one =>
        obtain ⟨first, accepted, rfl⟩ := one
        exact ⟨[first], List.cons_ne_nil _ _, List.forall_mem_singleton.mpr accepted, rfl⟩
    | head one _ ih =>
        obtain ⟨first, accepted, rfl⟩ := one
        obtain ⟨run, _, all, rfl⟩ := ih
        exact ⟨first :: run, List.cons_ne_nil _ _, List.forall_mem_cons.mpr ⟨accepted, all⟩, rfl⟩
  · rintro ⟨run, some_, all, rfl⟩
    induction run with
    | nil => exact absurd rfl some_
    | cons first run ih =>
        obtain ⟨accepted, later⟩ := List.forall_mem_cons.mp all
        have one : (unit accepts).Matches (first :: run ++ rest) (run ++ rest) :=
          ⟨first, accepted, rfl⟩
        cases run with
        | nil => exact .single one
        | cons second run => exact .head one (ih (List.cons_ne_nil _ _) later)

end Rules

end Regex

end SpeculativeAction.Library
