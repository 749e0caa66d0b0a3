import PreferenceLogic.Formula.Basic
import PreferenceLogic.Text.Decimal

/-!
# Oracles

All reasoning about objects is reduced to two questions about formulas: whether a formula is
satisfiable, and which models it has. An oracle answers them. It may keep a state of its own from
one question to the next, and it may fail.

While a problem is read and evaluated, records of what was done are kept in a journal, oldest first.
A record has a level, so a reader of the journal can leave out the details.

Definitions:
* `Record`: a line of the journal.
* `Session`: the state of an oracle and the journal.
* `Evaluation`: a computation that asks an oracle, writes to the journal and may fail. What was
  asked and written before a failure stays.
* `Oracle`: the answers to the two questions.
* `Oracle.recorded`: an oracle that also keeps the questions it was asked and its answers.
* `Oracle.scripted`: an oracle that gives prepared answers and never looks at the formula.
-/

namespace PreferenceLogic

/-! ## Errors -/

/-- Why a solver gives no answer. -/
inductive Solver.Error where
  /-- The search was stopped. -/
  | interrupted
deriving DecidableEq, Repr

/-- The wording of a solver's failure. -/
def Solver.Error.message : Solver.Error → Text
  | interrupted => "The solver was interrupted".toList

/-- Why an oracle gives no answer. -/
inductive Oracle.Error where
  /-- The solver failed. -/
  | solver (cause : Solver.Error)
  /-- The formula is said to be satisfiable, but no model is given. -/
  | missingModel
deriving DecidableEq, Repr

namespace Oracle.Error

/-- The wording of an oracle's failure. -/
def message : Oracle.Error → Text
  | solver cause => "SAT solver failed: ".toList ++ cause.message
  | missingModel => "SAT solver reported a satisfiable formula without a model".toList

/-- The wording of an oracle's failure together with that of its cause. -/
def fullText : Oracle.Error → Text
  | solver cause => message (solver cause) ++ ": ".toList ++ cause.message
  | missingModel => message missingModel

end Oracle.Error

/-! ## The journal -/

/-- How much a record matters. -/
inductive Record.Level where
  | error
  | info
  | debug
deriving DecidableEq, Repr

/-- A line of the journal. -/
structure Record where
  level : Record.Level
  text : Text
deriving DecidableEq, Repr

namespace Record

/-- The name of a level. -/
def Level.name : Level → Text
  | error => "ERROR".toList
  | info => "INFO".toList
  | debug => "DEBUG".toList

/-- The record with its level in front. -/
def labelled (r : Record) : Text := r.level.name ++ ": ".toList ++ r.text

/-- The record as it is shown: information stands alone, all else has its level in front. -/
def shown (r : Record) : Text := if r.level = .info then r.text else r.labelled

/-- A record that tells the count of something that was read. -/
def read (level : Level) (count : Nat) (what : String) : Record :=
  ⟨level, "Read ".toList ++ Text.decimal count ++ ' ' :: what.toList⟩

end Record

/-! ## Sessions -/

/-- What changes while a problem is evaluated. -/
structure Session (σ : Type) where
  /-- The state of the oracle. -/
  oracle : σ
  /-- The records written so far. -/
  journal : Array Record := #[]

/-- A computation with an oracle whose state is of type `σ`, failing with errors of type `ε`. -/
abbrev Evaluation (σ ε : Type) : Type → Type := ExceptT ε (StateM (Session σ))

namespace Evaluation

variable {σ ε α : Type}

/-- Writes a record to the journal. -/
def note (r : Record) : Evaluation σ ε Unit :=
  modify fun s => { s with journal := s.journal.push r }

/-- Changes the state of the oracle. -/
def update (f : σ → σ) : Evaluation σ ε Unit :=
  modify fun s => { s with oracle := f s.oracle }

/-- A result or an error that is already known. -/
def ofExcept (result : Except ε α) : Evaluation σ ε α := ExceptT.mk (pure result)

/-- Runs a computation from a state of the oracle and an empty journal. -/
def start (e : Evaluation σ ε α) (oracle : σ) : Except ε α × Session σ :=
  e.run.run { oracle }

end Evaluation

/-! ## Oracles -/

/-- The answers to the two questions about formulas. -/
structure Oracle (σ : Type) where
  /-- Whether a formula is satisfiable. -/
  satisfiable : Formula → Evaluation σ Oracle.Error Bool
  /-- The models of a formula, each as a list of literals. -/
  models : Formula → Evaluation σ Oracle.Error (List (List Literal))

namespace Oracle

/-- A question to an oracle. -/
inductive Query where
  | satisfiable (formula : Formula)
  | models (formula : Formula)
deriving DecidableEq, Repr

/-- A question to an oracle with the answer it had. -/
inductive Exchange where
  | satisfiable (formula : Formula) (answer : Except Error Bool)
  | models (formula : Formula) (answer : Except Error (List (List Literal)))

/-- The question of an exchange. -/
def Exchange.query : Exchange → Query
  | satisfiable formula _ => .satisfiable formula
  | models formula _ => .models formula

/-- The state of an oracle and its exchanges so far, oldest first. -/
structure Recorded (σ : Type) where
  oracle : σ
  exchanges : Array Exchange := #[]

/-- The questions that were asked, oldest first. -/
def Recorded.queries {σ : Type} (r : Recorded σ) : List Query :=
  r.exchanges.toList.map Exchange.query

/-- Asks a question of an oracle and adds the exchange to the record, whatever the answer is. -/
def Recorded.ask {σ α : Type} (exchange : Except Error α → Exchange)
    (answer : Evaluation σ Error α) : Evaluation (Recorded σ) Error α :=
  fun s =>
    let result := answer.run.run { oracle := s.oracle.oracle, journal := s.journal }
    (result.1, {
      oracle := {
        oracle := result.2.oracle
        exchanges := s.oracle.exchanges.push (exchange result.1) }
      journal := result.2.journal })

/-- The same oracle, keeping a record of its exchanges. -/
def recorded {σ : Type} (o : Oracle σ) : Oracle (Recorded σ) where
  satisfiable f := Recorded.ask (.satisfiable f) (o.satisfiable f)
  models f := Recorded.ask (.models f) (o.models f)

/-- The oracle that gives prepared answers. Its questions about satisfiability use up the answers
that are left in its state; past their end a model is missing. Questions for models all have the
same answer. -/
def scripted (models : Except Oracle.Error (List (List Literal))) :
    Oracle (List (Except Oracle.Error Bool)) where
  satisfiable _ := do
    match (← get).oracle with
    | [] => throw .missingModel
    | answer :: rest =>
      Evaluation.update fun _ => rest
      Evaluation.ofExcept answer
  models _ := Evaluation.ofExcept models

end Oracle

end PreferenceLogic
