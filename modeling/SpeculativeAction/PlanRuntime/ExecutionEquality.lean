import Mathlib.Algebra.BigOperators.Group.List.Basic
import Mathlib.Algebra.Order.BigOperators.Group.List
import Mathlib.Data.List.Induction
import Mathlib.Data.List.Perm.Basic
import Mathlib.Tactic.Ring
import SpeculativeAction.PlanRuntime.Proposals
import Std.Data.String.ToNat

/-! Execution equality of actions, and the texts it and plan identities rest on.
The dependency count over texts is a multiset comparison because the texts are injective.
-/

namespace SpeculativeAction

open SpeculativeAction.Library

-- Dependency texts

private theorem pinText_inj {left right : Option DependencyPin} {rest more : String}
    (same
      : (match left with
          | some pin =>
              ",\"proposalID\":" ++ (JsonText.quote pin.proposalID
                ++ (",\"identity\":" ++ JsonText.quote pin.identity))
          | none => "") ++ (",\"condition\":" ++ rest)
        = (match right with
          | some pin =>
              ",\"proposalID\":" ++ (JsonText.quote pin.proposalID
                ++ (",\"identity\":" ++ JsonText.quote pin.identity))
          | none => "") ++ (",\"condition\":" ++ more))
    : left = right ∧ rest = more := by
  have mismatch (text tail : String)
      : ",\"condition\":" ++ text ≠ ",\"proposalID\":" ++ tail := by
    intro equal
    have chars := congrArg (fun text => text.toList[2]?) equal
    simp at chars
  cases left with
  | none =>
      cases right with
      | none => exact ⟨rfl, by simpa using same⟩
      | some pin =>
          simp only [String.empty_append, String.append_assoc] at same
          exact absurd same (mismatch _ _)
  | some pin =>
      cases right with
      | none =>
          simp only [String.empty_append, String.append_assoc] at same
          exact absurd same.symm (mismatch _ _)
      | some other =>
          simp only [String.append_assoc, String.append_right_inj] at same
          obtain ⟨proposals, identityText⟩ := JsonText.quote_append_inj same
          simp only [String.append_right_inj] at identityText
          obtain ⟨identities, tail⟩ := JsonText.quote_append_inj identityText
          cases pin; cases other
          exact ⟨by simp_all, by simpa using tail⟩

private theorem conditionText_inj {left right : DependencyCondition}
    (same
      : JsonText.quote left.name ++ (match left with
          | .prediction observation =>
              ",\"observation\":" ++ (JsonText.quote observation ++ "\x7d")
          | _ => "\x7d")
        = JsonText.quote right.name ++ (match right with
          | .prediction observation =>
              ",\"observation\":" ++ (JsonText.quote observation ++ "\x7d")
          | _ => "\x7d"))
    : left = right := by
  obtain ⟨names, same⟩ := JsonText.quote_append_inj same
  cases left <;> cases right <;> simp only [DependencyCondition.name] at names <;>
    first
    | rfl
    | exact absurd names (by decide)
    | skip
  simp only [String.append_right_inj] at same
  rw [(JsonText.quote_append_inj same).1]

/-- Different dependency records have different texts. -/
theorem dependencyText_injective : Function.Injective dependencyText := by
  intro left right same
  simp only [dependencyText, String.append_right_inj] at same
  obtain ⟨actions, same⟩ := JsonText.quote_append_inj same
  obtain ⟨pins, same⟩ := pinText_inj same
  have conditions := conditionText_inj same
  cases left; cases right
  simp_all

-- Counting dependencies by text

/-- The summed changes of one text. -/
def textTotal (text : String) (changes : List (PlanDependency × ℤ)) : ℤ :=
  (changes.map fun change => if dependencyText change.1 = text then change.2 else 0).sum

/-- After any changes a text's entry is its nonzero total, by induction on the changes. -/
theorem get?_countDependencies (changes : List (PlanDependency × ℤ)) (text : String)
    : (changes.foldl countDependency OrderedMap.empty).get? text
      = if textTotal text changes = 0 then none else some (textTotal text changes) := by
  induction changes using List.reverseRecOn with
  | nil => simp [textTotal]
  | append_singleton changes change ih =>
      have total : textTotal text (changes ++ [change])
          = textTotal text changes + if dependencyText change.1 = text then change.2 else 0 := by
        simp [textTotal]
      have before : ((changes.foldl countDependency OrderedMap.empty).get? text).getD 0
          = textTotal text changes := by
        rw [ih]; split <;> simp [*]
      rw [List.foldl_append, List.foldl_cons, List.foldl_nil, countDependency, total]
      by_cases same : dependencyText change.1 = text
      · rw [same, before, if_pos rfl]
        split
        · simp [OrderedMap.get?_set]
        next zero => simp [OrderedMap.get?_delete, not_not.mp zero]
      · rw [if_neg same, add_zero, ← ih]
        split
        · rw [OrderedMap.get?_set, if_neg (Ne.symm same)]
        · rw [OrderedMap.get?_delete, if_neg (Ne.symm same)]

private theorem textTotal_of_constant (text : String) (dependencies : List PlanDependency) (delta : ℤ)
    : textTotal text (dependencies.map (·, delta))
      = (dependencies.countP (fun dependency => dependencyText dependency = text) : ℤ) * delta := by
  induction dependencies with
  | nil => simp [textTotal]
  | cons head rest ih =>
      simp only [textTotal, List.map_cons, List.sum_cons, List.countP_cons] at ih ⊢
      rw [ih]
      by_cases same : dependencyText head = text
      · simp only [same, decide_true, ite_true, Nat.cast_add, Nat.cast_one]
        ring
      · simp [same]

/-- What execution equality compares. -/
structure SameExecution (left right : PlanAction) : Prop where
  type : left.type = right.type
  operation : left.operation = right.operation
  tool : left.tool = right.tool
  input : left.input.isDeepStrictEqual right.input = true
  dependsOn : left.dependsOn.Perm right.dependsOn

/-- The counting comparison decides equality of the compared fields and of the dependency
multisets: a text counts to zero exactly when both sides list its record equally often.
-/
theorem samePlanActionExecution_iff {left right : PlanAction}
    : samePlanActionExecution left right = true ↔ SameExecution left right := by
  have balanced : (((left.dependsOn.map (·, (1 : ℤ)) ++ right.dependsOn.map (·, (-1 : ℤ))).foldl
      countDependency OrderedMap.empty).entries.isEmpty = true)
        ↔ left.dependsOn.Perm right.dependsOn := by
    have total (dependency : PlanDependency)
        : textTotal (dependencyText dependency)
            (left.dependsOn.map (·, (1 : ℤ)) ++ right.dependsOn.map (·, (-1 : ℤ)))
          = (left.dependsOn.count dependency : ℤ) - right.dependsOn.count dependency := by
      have counted (dependencies : List PlanDependency)
          : dependencies.countP (fun other => dependencyText other = dependencyText dependency)
            = dependencies.count dependency := by
        simp only [List.count, dependencyText_injective.eq_iff]
        rfl
      rw [textTotal, List.map_append, List.sum_append, ← textTotal, ← textTotal,
        textTotal_of_constant, textTotal_of_constant, counted, counted]
      ring
    rw [List.isEmpty_iff, List.perm_iff_count]
    constructor
    · intro none dependency
      have absent := get?_countDependencies (left.dependsOn.map (·, (1 : ℤ))
        ++ right.dependsOn.map (·, (-1 : ℤ))) (dependencyText dependency)
      rw [total, OrderedMap.get?, none] at absent
      simp only [List.find?_nil, Option.map_none] at absent
      split at absent
      · omega
      · cases absent
    · intro equal
      refine List.eq_nil_iff_forall_not_mem.mpr fun entry member => ?_
      obtain ⟨text, count⟩ := entry
      have found := OrderedMap.get?_eq_some_iff.mpr member
      rw [get?_countDependencies] at found
      have zero : textTotal text
          (left.dependsOn.map (·, (1 : ℤ)) ++ right.dependsOn.map (·, (-1 : ℤ))) = 0 := by
        rw [textTotal, List.map_append, List.sum_append, ← textTotal, ← textTotal,
          textTotal_of_constant, textTotal_of_constant,
          ((List.perm_iff_count.mpr equal).countP_eq _)]
        ring
      simp [zero] at found
  unfold samePlanActionExecution
  constructor
  · intro same
    split at same
    · cases same
    next fields =>
      simp only [ne_eq, Bool.or_eq_true, decide_eq_true_eq, not_or, not_not,
        Bool.not_eq_true', Bool.not_eq_false] at fields
      exact ⟨fields.1.1.1, fields.1.1.2, fields.1.2, fields.2, balanced.mp same⟩
  · intro same
    rw [if_neg (by simp [same.type, same.operation, same.tool, same.input])]
    exact balanced.mpr same.dependsOn

/-- Every action is the same execution as itself. -/
theorem SameExecution.refl (action : PlanAction) : SameExecution action action :=
  ⟨rfl, rfl, rfl, action.input.isDeepStrictEqual_self, .refl _⟩

-- Identity texts

/-- The identity text of a node: the JSON array of its source, plan, action and revision. -/
def identityText (source proposalID actionID : String) (revision : ℕ) : String :=
  "[" ++ (JsonText.quote source ++ ("," ++ (JsonText.quote proposalID
    ++ ("," ++ (JsonText.quote actionID ++ ("," ++ (revision.repr ++ "]")))))))

/-- Identity texts determine all four parts. -/
theorem identityText_inj {source source' proposalID proposalID' actionID actionID' : String}
    {revision revision' : ℕ}
    (same
      : identityText source proposalID actionID revision
        = identityText source' proposalID' actionID' revision')
    : source = source' ∧ proposalID = proposalID' ∧ actionID = actionID' ∧ revision = revision' := by
  simp only [identityText, String.append_right_inj] at same
  obtain ⟨sources, afterSource⟩ := JsonText.quote_append_inj same
  simp only [String.append_right_inj] at afterSource
  obtain ⟨proposals, afterProposal⟩ := JsonText.quote_append_inj afterSource
  simp only [String.append_right_inj] at afterProposal
  obtain ⟨actions, afterAction⟩ := JsonText.quote_append_inj afterProposal
  simp only [String.append_right_inj, String.append_left_inj] at afterAction
  exact ⟨sources, proposals, actions, Nat.repr_inj.mp afterAction⟩

end SpeculativeAction
