import PreferenceLogic.File.Read
import PreferenceLogic.File.Source
import PreferenceLogic.Problem.Basic

/-!
# Loading problems

A problem is loaded from four files. The attributes are read first, as all other files use their
labels; nothing is evaluated before all four are read.

Definitions:
* `Problem.Files`: the four files.
* `Problem.load`: reads and evaluates a problem.
-/

namespace PreferenceLogic.Problem

/-- The four files: their contents, or why they cannot be read. -/
structure Files where
  attributes : Except SystemError (List UInt8)
  constraints : Except SystemError (List UInt8)
  penalty : Except SystemError (List UInt8)
  qualitative : Except SystemError (List UInt8)

/-- Four files that can be read. -/
def Files.ofContents (attributes constraints penalty qualitative : List UInt8) : Files :=
  ⟨.ok attributes, .ok constraints, .ok penalty, .ok qualitative⟩

/-! ## Errors -/

/-- Why a problem cannot be loaded. -/
inductive LoadError where
  /-- A file has no content. -/
  | unreadable (cause : SystemError)
  /-- The content of a file is wrong. -/
  | read (cause : ReadError)
  /-- The problem cannot be evaluated. -/
  | problem (cause : Problem.Error)
deriving DecidableEq, Repr

namespace LoadError

/-- The wording of an error. -/
def message : LoadError → Text
  | unreadable cause => cause.message
  | read cause => cause.message
  | problem cause => cause.message

/-- The wording of an error together with that of its cause. -/
def fullText : LoadError → Text
  | unreadable cause => cause.message
  | read cause => cause.fullText
  | problem cause => cause.fullText

end LoadError

/-! ## Reading with records -/

section

variable {σ : Type}

/-- The content of a file. -/
def content (file : Except SystemError (List UInt8)) : Evaluation σ LoadError (List UInt8) :=
  Evaluation.ofExcept (file.mapError .unreadable)

/-- Notes how many entries a file has, once it is read. -/
def readNoting {α : Type} (result : Except ReadError α) (count : α → Nat) (what : String) :
    Evaluation σ LoadError α := do
  let entries ← Evaluation.ofExcept (result.mapError .read)
  Evaluation.note (.read .debug (count entries) what)
  return entries

/-- Reads the attributes. -/
def readVocabulary (input : List UInt8) : Evaluation σ LoadError Vocabulary :=
  readNoting (Vocabulary.read input) Vocabulary.size "attributes"

/-- Reads the hard constraints. -/
def readConstraints (v : Vocabulary) (input : List UInt8) : Evaluation σ LoadError Formula :=
  readNoting (Formula.read v input) (fun f => f.clauses.length) "constraint clauses"

/-- Reads the penalty rules. -/
def readPenaltyRules (v : Vocabulary) (input : List UInt8) :
    Evaluation σ LoadError (List PenaltyRule) :=
  readNoting (PenaltyRule.read v input) List.length "penalty rules"

/-- Reads the choice rules. -/
def readChoiceRules (v : Vocabulary) (input : List UInt8) :
    Evaluation σ LoadError (List ChoiceRule) :=
  readNoting (ChoiceRule.read v input) List.length "qualitative rules"

/-! ## Loading -/

/-- Reads and evaluates a problem. -/
def load (o : Oracle σ) (config : Config) (files : Files) : Evaluation σ LoadError Problem := do
  let vocabulary ← readVocabulary (← content files.attributes)
  Evaluation.note (.read .info vocabulary.size "attributes")
  let constraints ← readConstraints vocabulary (← content files.constraints)
  let penaltyRules ← readPenaltyRules vocabulary (← content files.penalty)
  let choiceRules ← readChoiceRules vocabulary (← content files.qualitative)
  Evaluation.note ⟨.info, "Read ".toList ++ Text.decimal constraints.clauses.length ++
    " constraint clauses, ".toList ++ Text.decimal penaltyRules.length ++
    " penalty rules and ".toList ++ Text.decimal choiceRules.length ++ " qualitative rules".toList⟩
  (evaluate o config vocabulary constraints penaltyRules choiceRules).adapt LoadError.problem

end

end PreferenceLogic.Problem
