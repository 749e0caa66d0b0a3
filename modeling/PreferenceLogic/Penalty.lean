import PreferenceLogic.Lookup
import PreferenceLogic.Problem.Error

/-!
# Penalty logic

Every penalty rule charges its penalty to each object that violates the rule's formula. The total
penalty of an object is the sum over all rules. A total above the limit is an error, never a smaller
number.

Definitions:
* `Oracle.charge`: the penalty that a rule charges to an object.
* `total?`: the sum of penalties, if it is within the limit.
* `PenaltyTable.score`: the penalties of some objects.
-/

namespace PreferenceLogic

/-! ## Totals -/

/-- The sum of two amounts, if it is within the limit. -/
def addWithin? (total penalty : Nat) : Option Nat :=
  if total + penalty ≤ penaltyLimit then some (total + penalty) else none

/-- The sum of penalties, if no partial sum exceeds the limit. -/
def total? (penalties : List Nat) : Option Nat := penalties.foldlM addWithin? 0

/-! ## Scores -/

/-- The penalty that a rule charges to an object: nothing if the object satisfies the formula. -/
def Oracle.charge {σ : Type} (o : Oracle σ) (rule : PenaltyRule) (object : Object) :
    Evaluation σ Oracle.Error Nat := do
  if ← o.satisfiable (object.pinned rule.formula) then return 0 else return rule.penalty

/-- The penalties of an object. -/
structure PenaltyRow where
  object : Nat
  /-- The charged penalties, in the order of the rules. -/
  penalties : List Nat
  total : Nat
deriving DecidableEq, Repr

/-- The penalties of some objects. -/
structure PenaltyTable where
  /-- The names of the rules. -/
  rules : List Text
  rows : List PenaltyRow
deriving DecidableEq, Repr

/-- Charges every rule to the object with a given number, then sums up. -/
def PenaltyRow.score {σ : Type} (o : Oracle σ) (rules : List PenaltyRule) (id : Nat)
    (object : Object) : Evaluation σ Problem.Error PenaltyRow := do
  let penalties ← rules.mapM fun rule => (o.charge rule object).adapt Problem.Error.oracle
  match total? penalties with
  | none => throw (.penaltyOverflow id)
  | some total =>
    Evaluation.note ⟨.debug, object.name ++ ": penalties [".toList ++
      List.intercalate ", ".toList (penalties.map Text.decimal) ++ "], total ".toList ++
      Text.decimal total⟩
    return { object := id, penalties, total }

namespace PenaltyTable

/-- Charges every rule to each of the objects with the given numbers, object by object. There has to
be an object for each number. -/
def score {σ : Type} (o : Oracle σ) (rules : List PenaltyRule) (objects : List Object)
    (feasible : List Nat) : Evaluation σ Problem.Error PenaltyTable := do
  let objects := objects.toArray
  let rows ← feasible.mapM fun id => PenaltyRow.score o rules id objects[id]!
  return { rules := rules.map PenaltyRule.name, rows }

/-- The row of an object. -/
def row? (table : PenaltyTable) (id : Nat) : Option PenaltyRow :=
  lookup? PenaltyRow.object table.rows id

/-- The total penalty of an object. -/
def total? (table : PenaltyTable) (id : Nat) : Option Nat := (table.row? id).map PenaltyRow.total

end PenaltyTable

end PreferenceLogic
