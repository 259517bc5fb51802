import Mathlib.Algebra.Order.Ring.Int
import Mathlib.Data.List.Sort
import Mathlib.Data.Prod.Lex
import Mathlib.Tactic.Ring

/-! The three truth values of conditions on columns that may be null. -/
namespace ATape.Foundation

/-- `none` is unknown. -/
abbrev Truth := Option Bool

namespace Truth

def both : Truth → Truth → Truth
  | some false,_ => some false
  | some true,b => b
  | none,some false => some false
  | none,_ => none

def either : Truth → Truth → Truth
  | some true,_ => some true
  | some false,b => b
  | none,some true => some true
  | none,_ => none

/-- A row is kept when its condition is true, not when it is unknown. -/
def holds : Truth → Bool
  | some true => true
  | _ => false

/-- The comparison of two pairs, the first column of which may be null. -/
def pairLess {α β : Type} [LinearOrder α] [LinearOrder β] (a : Option α) (b : β) (c : α) (d : β) : Truth :=
  a.map fun a => decide (a < c) || decide (a = c) && decide (b < d)

@[simp] theorem holds_some (b : Bool) : holds (some b) = b := by
  cases b <;> rfl

@[simp] theorem holds_none : holds none = false := rfl

@[simp] theorem holds_both (a b : Truth) : (both a b).holds = (a.holds && b.holds) := by
  cases a with
  | none =>
    cases b with
    | none => rfl
    | some b => cases b <;> rfl
  | some a => cases a <;> rfl

@[simp] theorem holds_either (a b : Truth) : (either a b).holds = (a.holds || b.holds) := by
  cases a with
  | none =>
    cases b with
    | none => rfl
    | some b => cases b <;> rfl
  | some a => cases a <;> simp [either]

end Truth
end ATape.Foundation
