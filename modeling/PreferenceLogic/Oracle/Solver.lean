import PreferenceLogic.Oracle.Basic
import PreferenceLogic.Oracle.Search.Outcome

/-!
# Solvers and the oracles made from them

A solver takes clauses one after the other and can be asked whether all clauses it has are
satisfiable. If they are, it has a model to show. The models of a formula are found by asking again
and again, each model being excluded by a clause of the opposite literals before the next question.

Definitions:
* `Solver`: a solver whose state is of type `τ`.
* `Solver.enumerate`: all models of the clauses that a solver has.
* `Oracle.ofSolver`: the oracle that answers every question with a fresh solver.
* `Oracle.exact`: the oracle of the search for models.
-/

namespace PreferenceLogic

/-- An incremental solver. -/
structure Solver (τ : Type) where
  /-- The solver without clauses. -/
  empty : τ
  /-- Adds a clause. -/
  add : Clause → τ → τ
  /-- Whether the clauses added so far are satisfiable, unless the solver fails. -/
  solve : τ → Except Solver.Error Bool × τ
  /-- The model that was found last, if there is one. -/
  model : τ → Option (List Literal)

namespace Solver

variable {τ : Type}

/-- The clause that excludes a model: the opposite of each of its literals. -/
def blocking (model : List Literal) : Clause := model.map Literal.negate

/-- A solver with the clauses of a formula. -/
def load (s : Solver τ) (f : Formula) : τ := f.clauses.foldl (fun t c => s.add c t) s.empty

/-- Models found by asking the solver at most a given number of times, added to those found before.
After each model the solver is given the clause that excludes it. The first question without an
answer and the first model that is missing are errors. -/
def enumerateFrom (s : Solver τ) :
    Nat → τ → Array (List Literal) → Except Oracle.Error (Array (List Literal)) × τ
  | 0, t, found => (.ok found, t)
  | asks + 1, t, found =>
    match s.solve t with
    | (.error cause, t) => (.error (.solver cause), t)
    | (.ok false, t) => (.ok found, t)
    | (.ok true, t) =>
      match s.model t with
      | none => (.error .missingModel, t)
      | some model => s.enumerateFrom asks (s.add (blocking model) t) (found.push model)

/-- All models of a formula. There is at most one model for each valuation of the atoms within
reach, and one question more finds no model. -/
def enumerate (s : Solver τ) (f : Formula) : Except Oracle.Error (Array (List Literal)) × τ :=
  s.enumerateFrom (Nat.pow 2 f.reach + 1) (s.load f) #[]

/-- The search for models as a solver, which never fails. Beside the search it has the model that
was found last, until a clause is added. -/
def search : Solver (Search × Option (List Literal)) where
  empty := (.empty, none)
  add c t := (t.1.add c, none)
  solve t :=
    let (model, search) := t.1.solve
    (.ok model.isSome, (search, model))
  model t := t.2

end Solver

namespace Oracle

/-- The oracle that starts a solver for each question. Its state is the number of questions so
far. -/
def ofSolver {τ : Type} (s : Solver τ) : Oracle Nat where
  satisfiable f := do
    Evaluation.update (· + 1)
    Evaluation.ofExcept ((s.solve (s.load f)).1.mapError Oracle.Error.solver)
  models f := do
    Evaluation.update (· + 1)
    let models ← Evaluation.ofExcept (s.enumerate f).1
    Evaluation.note ⟨.debug, "Enumerated ".toList ++ Text.decimal models.size ++
      " models over ".toList ++ Text.decimal f.atoms ++ " variables".toList⟩
    return models.toList

/-- The oracle of the search for models. -/
def exact : Oracle Nat := ofSolver Solver.search

end Oracle

end PreferenceLogic
