import PreferenceLogic.File.Error
import PreferenceLogic.Vocabulary

/-!
# The language of formulas and rules

A formula is written as clauses with ` AND ` between them, a clause as literals with ` OR ` between
them, and a literal as a label or as the negation marker and a label. There are no parentheses, so
what is written is a conjunction of clauses already.

A penalty rule charges its penalty to every object that violates its formula. A choice rule lists
tiers, from the most to the least preferred, and may have a condition on the objects it applies to.
The text of a rule is its name.

Definitions:
* `Formula.parse`: reads a formula over the labels of a vocabulary.
* `PenaltyRule.parse`: reads a formula, a comma and a penalty.
* `ChoiceRule.parse`: reads tiers with ` BT ` between them and perhaps ` IF ` and a condition.
-/

namespace PreferenceLogic

/-! ## Formulas -/

namespace Formula

/-- Stands between clauses. -/
def conjunction : Text := [' ', 'A', 'N', 'D', ' ']

/-- Stands between the literals of a clause. -/
def disjunction : Text := [' ', 'O', 'R', ' ']

/-- Whether a word is the negation marker, in any case of its ASCII letters. -/
def isNegation (word : Text) : Bool := word.map Char.toUpper == negationMarker

/-- Reads a literal: a label, or the negation marker and a label. -/
def parseLiteral (v : Vocabulary) (t : Text) : Except LabelError Literal :=
  match Text.words t with
  | [label] => v.resolve label
  | [marker, label] =>
    if isNegation marker then (v.resolve label).map Literal.negate
    else .error (.invalidNegation marker (Text.trim t))
  | words => .error (.malformed (Text.trim t) words.length)

/-- Reads a clause: literals with the disjunction between them. -/
def parseClause (v : Vocabulary) (t : Text) : Except LabelError Clause :=
  (Text.split disjunction t).mapM (parseLiteral v)

/-- Reads a formula: clauses with the conjunction between them. Clauses and literals keep their
order, the first error wins, and the formula ranges over all attributes. -/
def parse (v : Vocabulary) (t : Text) : Except LabelError Formula :=
  ((Text.split conjunction (Text.trim t)).mapM (parseClause v)).map (ofClauses v.size)

end Formula

/-! ## Penalty rules -/

/-- The largest penalty, and the largest total of penalties: the largest number of 64 bits. -/
def penaltyLimit : Nat := UInt64.size - 1

/-- A rule of penalty logic. -/
structure PenaltyRule where
  /-- The text of the formula. -/
  name : Text
  formula : Formula
  /-- What an object pays that violates the formula. -/
  penalty : Nat
deriving DecidableEq, Repr

/-- Reads a penalty: a numeral that does not exceed the limit. -/
def readPenalty? (t : Text) : Option Nat :=
  (Text.readDecimal? t).filter (· ≤ penaltyLimit)

/-- Reads a penalty rule. The last comma divides the formula from the penalty, and the penalty is
read first. -/
def PenaltyRule.parse (v : Vocabulary) (t : Text) : Except Fault PenaltyRule :=
  match Text.cutLast? ',' t with
  | none => .error (.penaltyRule t)
  | some (formulaText, penaltyText) =>
    match readPenalty? (Text.trim penaltyText) with
    | none => .error (.penalty (Text.trim penaltyText))
    | some penalty =>
      let name := Text.trim formulaText
      match Formula.parse v name with
      | .error cause => .error (.label cause)
      | .ok formula => .ok { name, formula, penalty }

/-! ## Choice rules -/

/-- A rule of qualitative choice logic. -/
structure ChoiceRule where
  /-- The text of the whole rule. -/
  name : Text
  /-- The alternatives, the most preferred one first. -/
  tiers : List Formula
  /-- What an object has to satisfy for the rule to apply. -/
  condition : Option Formula
deriving DecidableEq, Repr

namespace ChoiceRule

/-- Stands between tiers: the tier before it is better than the tier after it. -/
def betterThan : Text := [' ', 'B', 'T', ' ']

/-- Ends the tiers of a rule without a condition. -/
def danglingCondition : Text := [' ', 'I', 'F']

/-- Stands between the tiers and the condition. -/
def conditional : Text := danglingCondition ++ [' ']

/-- The texts of the tiers and of the condition. One dangling ` IF` at the end of a rule is passed
over, and so is a blank condition. -/
def cutCondition (name : Text) : Text × Option Text :=
  let body := Text.dropEnding danglingCondition name
  match Text.cutFirst? conditional body with
  | none => (body, none)
  | some (choice, condition) => (choice, if Text.trim condition = [] then none else some condition)

/-- Reads a choice rule, the tiers before the condition. -/
def parse (v : Vocabulary) (t : Text) : Except Fault ChoiceRule :=
  let name := Text.trim t
  let (choice, condition) := cutCondition name
  match (Text.split betterThan choice).mapM (Formula.parse v) with
  | .error cause => .error (.label cause)
  | .ok tiers =>
    match condition.mapM (Formula.parse v) with
    | .error cause => .error (.label cause)
    | .ok condition => .ok { name, tiers, condition }

/-- Whether a rule applies under a condition only. -/
def isConditional (rule : ChoiceRule) : Bool := rule.condition.isSome

end ChoiceRule

end PreferenceLogic
