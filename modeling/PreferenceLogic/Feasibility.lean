import Std.Data.TreeSet.Lemmas
import PreferenceLogic.Object
import PreferenceLogic.Oracle.Basic

/-!
# Feasible objects

An object is feasible when it satisfies the hard constraints. All feasible objects are found by one
question for the models of the constraints. So that a model decides every attribute, a clause that
always holds is added for each of them.

Definitions:
* `Formula.spanning`: the constraints with the added clauses.
* `Oracle.feasible`: the numbers of the objects whose literals are a model.

Results:
* `mem_fitting_ofList`: the feasible objects are those whose literals are among the models.
-/

namespace PreferenceLogic

/-- The clause that an atom or its denial holds. -/
def excludedMiddle (atom : Nat) : Clause := [⟨atom, false⟩, ⟨atom, true⟩]

/-- The clauses of a formula and, for each of the first atoms, the clause that always holds. -/
def Formula.spanning (f : Formula) (atoms : Nat) : Formula :=
  ofClauses atoms (f.clauses ++ (List.range atoms).map excludedMiddle)

/-- The numbers of the objects whose literals are among some models, in the order of the objects.
Models that fit no object are passed over, and so are repeated ones. -/
def fitting (models : Std.TreeSet (List Literal)) (objects : List Object) : List Nat :=
  (objects.filter fun object => models.contains object.literals).map Object.id

theorem mem_fitting_ofList {models : List (List Literal)} {objects : List Object} {id : Nat} :
    id ∈ fitting (.ofList models) objects ↔
      ∃ object ∈ objects, object.literals ∈ models ∧ object.id = id := by
  simp [fitting, Std.TreeSet.contains_ofList, and_assoc]

/-- The numbers of the objects whose literals are a model of the constraints. -/
def Oracle.feasible {σ : Type} (o : Oracle σ) (constraints : Formula) (objects : List Object) :
    Evaluation σ Oracle.Error (List Nat) := do
  let models := Std.TreeSet.ofList (← o.models constraints)
  let feasible := fitting models objects
  Evaluation.note ⟨.info, Text.decimal models.size ++ " models, ".toList ++
    Text.decimal feasible.length ++ " of ".toList ++ Text.decimal objects.length ++
    " objects are feasible".toList⟩
  return feasible

end PreferenceLogic
