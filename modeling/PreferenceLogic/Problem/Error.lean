import PreferenceLogic.Language
import PreferenceLogic.Object
import PreferenceLogic.Oracle.Basic

/-!
# Errors of problems

What can go wrong while a problem is evaluated or asked about.
-/

namespace PreferenceLogic.Problem

/-- Why a problem cannot be evaluated, or a question about it not answered. -/
inductive Error where
  /-- There are more attributes than allowed. -/
  | tooManyAttributes (count limit : Nat)
  /-- Two rules of the same logic have the same name. -/
  | duplicateRule (name : Text)
  /-- There are not two feasible objects to compare. -/
  | emptySample (feasible : Nat)
  /-- The total penalty of an object exceeds the limit. -/
  | penaltyOverflow (object : Nat)
  /-- The object is not feasible. -/
  | notFeasible (object : Nat)
  /-- The oracle gave no answer. -/
  | oracle (cause : Oracle.Error)
deriving DecidableEq, Repr

namespace Error

/-- The wording of an error. -/
def message : Error → Text
  | tooManyAttributes count limit =>
    "Problem has ".toList ++ Text.decimal count ++ " attributes, at most ".toList ++
      Text.decimal limit ++ " are supported (see max_attributes)".toList
  | duplicateRule name =>
    "Rule ".toList ++ Text.quoted name ++ " is declared more than once".toList
  | emptySample feasible =>
    "Comparing objects needs at least two feasible objects, found ".toList ++ Text.decimal feasible
  | penaltyOverflow object =>
    "Total penalty of object ".toList ++ Object.nameOf object ++ " exceeds ".toList ++
      Text.decimal penaltyLimit
  | notFeasible object => "Object ".toList ++ Object.nameOf object ++ " is not feasible".toList
  | oracle cause => cause.message

/-- The wording of an error together with that of its cause. -/
def fullText : Error → Text
  | oracle cause => cause.fullText
  | e => e.message

end Error

end PreferenceLogic.Problem
