import PreferenceLogic.CommandLine.Invocation
import PreferenceLogic.Config.Document
import PreferenceLogic.Menu
import PreferenceLogic.Oracle.Solver
import PreferenceLogic.Problem.Load

/-!
# Running an invocation

An invocation is run in three steps: the parameters are set, the four files are read and the problem
is evaluated, and the task is performed or the menu opened. A failure in any step ends the run and
is the last record of the journal. A path may lead to the standard input, and then a session has
what the files left of it.

Definitions:
* `Invocation.prepare`: the first two steps.
* `CommandLine.run`: all of it, with the output, the journal and the exit code.
-/

namespace PreferenceLogic

/-! ## Failures -/

/-- Why a run fails. -/
inductive Invocation.Failure where
  /-- A file with parameters cannot be opened or read. -/
  | configUnreadable (cause : SystemError)
  /-- A file with parameters is not UTF-8. -/
  | configUndecodable
  /-- Parameters cannot be set. -/
  | config (cause : Config.Error)
  /-- A file of the problem is not named. -/
  | unnamed (file : Text)
  /-- A file of the problem cannot be opened. -/
  | unopened (path : Text) (cause : SystemError)
  /-- The problem cannot be loaded. -/
  | load (cause : Problem.LoadError)
  /-- The task cannot be performed, or the session cannot go on. -/
  | dialogue (cause : Dialogue.Error)
deriving DecidableEq, Repr

namespace Invocation

/-- The wording of a failure together with that of its causes. -/
def Failure.fullText : Failure → Text
  | configUnreadable cause => cause.message
  | configUndecodable => ReadError.undecodableText
  | config cause => cause.message
  | unnamed file => "Missing required argument --".toList ++ file
  | unopened path cause =>
    "Failed to open ".toList ++ Text.quoted path ++ ": ".toList ++ cause.message
  | load cause => cause.fullText
  | dialogue cause => cause.fullText

/-! ## Preparation -/

/-- Opens a path. -/
abbrev Opener := Text → Except SystemError Source

/-- The text of a file with parameters, and what is left of the standard input. -/
def configurationText (opener : Opener) (path : Text) (input : List UInt8) :
    Except Failure (Text × List UInt8) := do
  let source ← (opener path).mapError .configUnreadable
  let bytes ← (source.take input).1.mapError .configUnreadable
  match Utf8.decode? bytes with
  | none => throw .configUndecodable
  | some t => return (t, (source.take input).2)

/-- The parameters that the file and the single settings give, in this order, and what is left of
the standard input. -/
def configuration (i : Invocation) (opener : Opener) (input : List UInt8) :
    Except Failure (Config × List UInt8) := do
  let (fromFile, input) ← match i.config with
    | none => pure ({}, input)
    | some path =>
      let (t, input) ← configurationText opener path input
      let update ← (Config.Update.ofDocument t).mapError .config
      pure (update, input)
  let update ← i.settings.foldlM (fun update setting =>
    (Config.Update.ofDocument setting).map update.merge) fromFile |>.mapError .config
  return (({} : Config).apply update, input)

/-- Opens a file of the problem. -/
def openFile {σ : Type} (opener : Opener) (option : CommandLine.MainOption)
    (path : Option Text) : Evaluation σ Failure Source := do
  match path with
  | none => throw (.unnamed option.name)
  | some path =>
    Evaluation.note ⟨.info, "Reading ".toList ++ option.name ++ " from ".toList ++
      Text.quoted path⟩
    Evaluation.ofExcept ((opener path).mapError (.unopened path))

/-- Opens all files of the problem before any of them is read, and then reads them in the same
order. Gives the files and what is left of the standard input. -/
def openFiles {σ : Type} (i : Invocation) (opener : Opener) (input : List UInt8) :
    Evaluation σ Failure (Problem.Files × List UInt8) := do
  let attributes ← openFile opener .attributes i.attributes
  let constraints ← openFile opener .constraints i.constraints
  let penalty ← openFile opener .penalty i.penalty
  let qualitative ← openFile opener .qualitative i.qualitative
  let (attributes, input) := attributes.take input
  let (constraints, input) := constraints.take input
  let (penalty, input) := penalty.take input
  let (qualitative, input) := qualitative.take input
  return ({ attributes, constraints, penalty, qualitative }, input)

/-- What is there when a task is performed. -/
structure Preparation where
  config : Config
  problem : Problem
  /-- What is left of the standard input. -/
  input : List UInt8

/-- Sets the parameters, reads all files and evaluates the problem. The state of the oracle is the
number of its questions. -/
def prepare (i : Invocation) (o : Oracle Nat) (opener : Opener) (input : List UInt8) :
    Evaluation Nat Failure Preparation := do
  let (config, input) ← Evaluation.ofExcept (i.configuration opener input)
  let (files, input) ← i.openFiles opener input
  let problem ← (Problem.load o config files).adapt Failure.load
  let queries := (← get).oracle
  Evaluation.note ⟨.info, "Evaluated problem with ".toList ++ Text.decimal queries ++
    " oracle queries".toList⟩
  return { config, problem, input }

/-- The paths of all files that an invocation names. -/
def paths (i : Invocation) : List Text :=
  [i.config, i.attributes, i.constraints, i.penalty, i.qualitative].filterMap id

/-- The generator that samples are drawn from: that of the seed, or that of other chance. -/
def generator (config : Config) (chance : UInt64) : Generator :=
  .seeded ((config.seed.map UInt64.ofNat).getD chance)

/-- Performs the task, or holds a session over some input. -/
def perform (i : Invocation) (p : Problem) (input : List UInt8) : Dialogue Unit :=
  match i.task with
  | some (task, logic) => task.perform .standard p logic
  | none => discard (Menu.session .standard p input)

end Invocation

/-! ## Runs -/

namespace CommandLine

/-- Whether a record of the journal is shown. Details are not. -/
def isShown (r : Record) : Bool := r.level != .debug

/-- What a run leaves behind. -/
structure Outcome where
  exitCode : UInt32
  output : Array UInt8 := #[]
  journal : Array Record := #[]

/-- The end of a run that fails. -/
def Outcome.failed (journal : Array Record) (output : Array UInt8) (failure : Invocation.Failure) :
    Outcome :=
  { exitCode := 1, output, journal := journal.push ⟨.error, failure.fullText⟩ }

/-- Runs an invocation with some files, some input and some chance. -/
def runInvocation (i : Invocation) (opener : Invocation.Opener) (input : List UInt8)
    (chance : UInt64) : Outcome :=
  if i.asksForHelp then { exitCode := 0, output := (Utf8.encode Config.help).toArray }
  else match (i.prepare Oracle.exact opener input).start 0 with
    | (.error failure, session) => .failed session.journal #[] failure
    | (.ok prepared, session) =>
      let console : Console := { generator := Invocation.generator prepared.config chance }
      match (i.perform prepared.problem prepared.input).run.run console with
      | (.error cause, console) => .failed session.journal console.sink.written (.dialogue cause)
      | (.ok (), console) =>
        { exitCode := 0, output := console.sink.written, journal := session.journal }

/-- Runs a command line. One that cannot be read has the exit code 1 and does nothing. -/
def run (words : List Text) (opener : Invocation.Opener) (input : List UInt8)
    (chance : UInt64) : Outcome :=
  match Invocation.parse? words with
  | none => { exitCode := 1 }
  | some i => runInvocation i opener input chance

end CommandLine

end PreferenceLogic
