import PreferenceLogic.Degree
import PreferenceLogic.Penalty

/-!
# Preference between objects and optimal objects

Penalty logic prefers the lower total penalty, so any two objects can be compared. Qualitative
choice logic prefers an object whose degrees are nowhere worse and somewhere better; two objects
that are each better somewhere are incomparable.

Definitions:
* `Comparison.ofTotals`, `Comparison.ofDegrees`: the outcome of a comparison.
* `PenaltyTable.optimal`: the objects with the least total.
* `DegreeTable.optimal`: the objects over which no object is preferred.
-/

namespace PreferenceLogic

/-- The outcome of comparing two objects. -/
inductive Comparison where
  /-- The first object is strictly preferred. -/
  | first
  /-- The second object is strictly preferred. -/
  | second
  /-- The scores agree. -/
  | equal
  /-- The scores disagree, but neither object is preferred. -/
  | incomparable
deriving DecidableEq, Repr

namespace Comparison

/-- The outcome with the objects swapped. -/
def reverse : Comparison → Comparison
  | first => second
  | second => first
  | equal => equal
  | incomparable => incomparable

/-- Compares two total penalties. The lower one is preferred. -/
def ofTotals (a b : Nat) : Comparison :=
  if a < b then first else if b < a then second else equal

/-- Compares the degrees of two objects for the same rules. -/
def ofDegrees (a b : List Degree) : Comparison :=
  let firstBetter := (a.zip b).any fun pair => pair.1.better pair.2
  let secondBetter := (a.zip b).any fun pair => pair.2.better pair.1
  match firstBetter, secondBetter with
  | true, false => first
  | false, true => second
  | false, false => equal
  | true, true => incomparable

@[simp] theorem reverse_reverse (c : Comparison) : c.reverse.reverse = c := by
  cases c <;> rfl

end Comparison

/-! ## Optimal objects -/

/-- The objects whose total penalty is least, in the order of the table. -/
def PenaltyTable.optimal (table : PenaltyTable) : List Nat :=
  match (table.rows.map PenaltyRow.total).min? with
  | none => []
  | some least => (table.rows.filter fun row => row.total == least).map PenaltyRow.object

/-- The objects over which no object of the table is preferred, in the order of the table. -/
def DegreeTable.optimal (table : DegreeTable) : List Nat :=
  (table.rows.filter fun row =>
    !table.rows.any fun other => Comparison.ofDegrees other.degrees row.degrees == .first).map
    DegreeRow.object

end PreferenceLogic
