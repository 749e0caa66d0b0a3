import PreferenceLogic.Lookup
import PreferenceLogic.Problem.Error

/-!
# Qualitative choice logic

A choice rule lists tiers from the most to the least preferred one. The degree to which an object
satisfies the rule is the rank of the first tier that it satisfies. An object that violates the
rule's condition, or satisfies no tier, has the worst degree.

Definitions:
* `Degree`: ranks and, after all of them, the worst degree.
* `Oracle.degree`: the degree of an object for a rule.
* `DegreeTable.score`: the degrees of some objects.
-/

namespace PreferenceLogic

/-! ## Degrees -/

/-- The degree to which an object satisfies a choice rule. -/
inductive Degree where
  /-- The rank of the first satisfied tier, counted from one. -/
  | tier (rank : Nat)
  /-- The rule does not apply, or no tier is satisfied. -/
  | unsatisfied
deriving DecidableEq, Repr

namespace Degree

/-- Lower ranks come first, the worst degree last. -/
def order : Degree → Degree → Ordering
  | tier a, tier b => compare a b
  | tier _, unsatisfied => .lt
  | unsatisfied, tier _ => .gt
  | unsatisfied, unsatisfied => .eq

/-- A degree is better than those that come after it. -/
def better (a b : Degree) : Bool := a.order b == .lt

/-- A degree as reports show it. -/
def text : Degree → Text
  | tier rank => Text.decimal rank
  | unsatisfied => "inf".toList

/-- A degree as the journal shows it. -/
def detail : Degree → Text
  | tier rank => "Tier(".toList ++ Text.decimal rank ++ ")".toList
  | unsatisfied => "Unsatisfied".toList

end Degree

/-! ## Scores -/

namespace Oracle

variable {σ : Type}

/-- The rank of the first tier that an object satisfies, where the first tier has the given rank.
Later tiers are not asked for. -/
def firstTier (o : Oracle σ) (object : Object) : Nat → List Formula →
    Evaluation σ Oracle.Error Degree
  | _, [] => return .unsatisfied
  | rank, tier :: rest => do
    if ← o.satisfiable (object.pinned tier) then return .tier rank
    else o.firstTier object (rank + 1) rest

/-- The degree of an object for a rule. The condition is asked for first, and the tiers only if it
holds. -/
def degree (o : Oracle σ) (rule : ChoiceRule) (object : Object) :
    Evaluation σ Oracle.Error Degree := do
  match rule.condition with
  | none => o.firstTier object 1 rule.tiers
  | some condition =>
    if ← o.satisfiable (object.pinned condition) then o.firstTier object 1 rule.tiers
    else return .unsatisfied

end Oracle

/-- The degrees of an object. -/
structure DegreeRow where
  object : Nat
  /-- The degrees, in the order of the rules. -/
  degrees : List Degree
deriving DecidableEq, Repr

/-- The degrees of some objects. -/
structure DegreeTable where
  /-- The names of the rules. -/
  rules : List Text
  rows : List DegreeRow
deriving DecidableEq, Repr

/-- Finds the degree of the object with a given number for every rule. -/
def DegreeRow.score {σ : Type} (o : Oracle σ) (rules : List ChoiceRule) (id : Nat)
    (object : Object) : Evaluation σ Oracle.Error DegreeRow := do
  let degrees ← rules.mapM fun rule => o.degree rule object
  Evaluation.note ⟨.debug, object.name ++ ": degrees [".toList ++
    List.intercalate ", ".toList (degrees.map Degree.detail) ++ "]".toList⟩
  return { object := id, degrees }

namespace DegreeTable

/-- Finds the degrees of each of the objects with the given numbers, object by object. There has to
be an object for each number. -/
def score {σ : Type} (o : Oracle σ) (rules : List ChoiceRule) (objects : List Object)
    (feasible : List Nat) : Evaluation σ Oracle.Error DegreeTable := do
  let objects := objects.toArray
  let rows ← feasible.mapM fun id => DegreeRow.score o rules id objects[id]!
  return { rules := rules.map ChoiceRule.name, rows }

/-- The degrees of an object. -/
def degrees? (table : DegreeTable) (id : Nat) : Option (List Degree) :=
  (lookup? DegreeRow.object table.rows id).map DegreeRow.degrees

end DegreeTable

end PreferenceLogic
