import PreferenceLogic.Comparison
import PreferenceLogic.Config.Basic
import PreferenceLogic.Feasibility
import PreferenceLogic.Random.Generator
import PreferenceLogic.Rulebook

/-!
# Preference problems

A problem is evaluated once: all objects are generated, the feasible ones are found, and every
feasible object is scored in both logics. All later questions only look at the results. Two
different feasible objects may be chosen at random and compared; with fewer than two of them nothing
is drawn.

Definitions:
* `Problem.evaluate`: evaluates a problem with an oracle.
* `Problem.compareByPenalty`, `Problem.compareByDegrees`: the comparison of two feasible objects.
* `Problem.samplePair`, `Problem.sampleExample`: two feasible objects and their comparison, drawn in
  a given way.
* `Problem.optimal`: the optimal objects in a logic.
-/

namespace PreferenceLogic

/-- An evaluated problem. -/
structure Problem where
  vocabulary : Vocabulary
  rules : Rulebook
  /-- All objects, in the order of their numbers. -/
  objects : List Object
  /-- The numbers of the feasible objects, in increasing order. -/
  feasible : List Nat
  penalties : PenaltyTable
  degrees : DegreeTable
deriving DecidableEq, Repr

/-- The logic by which objects are compared. -/
inductive Logic where
  | penalty
  | qualitative
deriving DecidableEq, Repr

namespace Problem

/-! ## Evaluation -/

/-- Evaluates a problem. Too many attributes and repeated rule names are found before the oracle is
asked anything; then it is asked for the feasible objects, the penalties and the degrees, in this
order. -/
def evaluate {σ : Type} (o : Oracle σ) (config : Config) (vocabulary : Vocabulary)
    (constraints : Formula) (penaltyRules : List PenaltyRule) (choiceRules : List ChoiceRule) :
    Evaluation σ Error Problem := do
  if config.attributeLimit < vocabulary.size then
    throw (.tooManyAttributes vocabulary.size config.attributeLimit)
  let rules ← Evaluation.ofExcept (Rulebook.ofRules penaltyRules choiceRules)
  let objects := vocabulary.objects
  Evaluation.note ⟨.info, "Generated ".toList ++ Text.decimal objects.length ++
    " objects over ".toList ++ Text.decimal vocabulary.size ++ " attributes".toList⟩
  let feasible ←
    (o.feasible (constraints.spanning vocabulary.size) objects).adapt Error.oracle
  let penalties ← PenaltyTable.score o rules.penalty objects feasible
  let degrees ← (DegreeTable.score o rules.choice objects feasible).adapt Error.oracle
  Evaluation.note ⟨.info, "Scored ".toList ++ Text.decimal feasible.length ++
    " feasible objects against ".toList ++ Text.decimal rules.penalty.length ++
    " penalty and ".toList ++ Text.decimal rules.choice.length ++ " qualitative rules".toList⟩
  return { vocabulary, rules, objects, feasible, penalties, degrees }

/-! ## Questions -/

/-- The object with a given number. -/
def object? (p : Problem) (id : Nat) : Option Object := p.objects[id]?

/-- Whether an object is feasible. -/
def isFeasible (p : Problem) (id : Nat) : Bool :=
  (lookup? (fun number => number) p.feasible id).isSome

/-- The score of a feasible object that a table holds. -/
def scoreOf {α : Type} (score? : Nat → Option α) (id : Nat) : Except Error α :=
  match score? id with
  | some score => .ok score
  | none => .error (.notFeasible id)

/-- Compares two feasible objects by their total penalties. The first object that is not feasible
is the error. -/
def compareByPenalty (p : Problem) (first second : Nat) : Except Error Comparison := do
  let a ← scoreOf p.penalties.total? first
  let b ← scoreOf p.penalties.total? second
  return .ofTotals a b

/-- Compares two feasible objects by their degrees. The first object that is not feasible is the
error. -/
def compareByDegrees (p : Problem) (first second : Nat) : Except Error Comparison := do
  let a ← scoreOf p.degrees.degrees? first
  let b ← scoreOf p.degrees.degrees? second
  return .ofDegrees a b

/-! ## The two logics -/

/-- Compares two feasible objects in a logic. -/
def compare (p : Problem) : Logic → Nat → Nat → Except Error Comparison
  | .penalty => p.compareByPenalty
  | .qualitative => p.compareByDegrees

/-- The optimal objects in a logic. -/
def optimal (p : Problem) : Logic → List Nat
  | .penalty => p.penalties.optimal
  | .qualitative => p.degrees.optimal

/-! ## Sampling -/

/-- A computation that draws from a generator and may fail. -/
abbrev Sampling : Type → Type := ExceptT Error (StateM Generator)

/-- Two feasible objects and how they compare. -/
structure Example where
  first : Nat
  second : Nat
  outcome : Comparison
deriving DecidableEq, Repr

/-- Two different feasible objects, drawn in a given way. -/
def samplePair (sampler : Sampler) (p : Problem) : Sampling (Nat × Nat) := fun g =>
  if h : 2 ≤ p.feasible.length then
    let pair := sampler.draw p.feasible.length h g
    (.ok (p.feasible[pair.1.1], p.feasible[pair.1.2]), pair.2)
  else (.error (.emptySample p.feasible.length), g)

/-- Two different feasible objects, drawn in a given way, and their comparison in a logic. -/
def sampleExample (sampler : Sampler) (p : Problem) (logic : Logic) : Sampling Example := do
  let (first, second) ← p.samplePair sampler
  let outcome ← ExceptT.mk (pure (p.compare logic first second))
  return { first, second, outcome }

end Problem

end PreferenceLogic
