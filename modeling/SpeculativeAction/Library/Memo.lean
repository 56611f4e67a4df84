import SpeculativeAction.Library.OrderedMap

/-! Results that are computed once for each key and recalled afterwards. -/

namespace SpeculativeAction.Library.Memo

variable {Input K V : Type*} [DecidableEq K]

/-- Recall the result that is stored under the input's key, or compute and store it. -/
def remember (key : Input → K) (compute : Input → V) (stored : OrderedMap K V) (input : Input)
    : V × OrderedMap K V :=
  match stored.get? (key input) with
  | some value => (value, stored)
  | none => (compute input, stored.set (key input) (compute input))

/-- Every stored result was computed from an admitted input with that key. -/
def Recalls (admitted : Input → Prop) (key : Input → K) (compute : Input → V)
    (stored : OrderedMap K V)
    : Prop :=
  stored.Forall fun name value => ∃ input, admitted input ∧ key input = name ∧ compute input = value

variable {admitted : Input → Prop} {key : Input → K} {compute : Input → V}
  {stored : OrderedMap K V}

theorem Recalls.empty : Recalls admitted key compute (OrderedMap.empty : OrderedMap K V) :=
  OrderedMap.Forall.empty

/-- Where the key determines the result, a recalled result is the computed one. -/
theorem Recalls.remember (recalls : Recalls admitted key compute stored)
    (determined
      : ∀ left right,
          admitted left → admitted right → key left = key right → compute left = compute right)
    {input : Input} (admits : admitted input)
    : (Memo.remember key compute stored input).1 = compute input
      ∧ Recalls admitted key compute (Memo.remember key compute stored input).2 := by
  rw [Memo.remember]
  cases found : stored.get? (key input) with
  | none => exact ⟨rfl, recalls.set ⟨input, admits, rfl, rfl⟩⟩
  | some value =>
      obtain ⟨earlier, admitted_, same, computed⟩ := recalls (key input) value found
      exact ⟨computed.symm.trans (determined earlier input admitted_ admits same), recalls⟩

end SpeculativeAction.Library.Memo
