import PreferenceLogic.File.Error
import PreferenceLogic.Report
import PreferenceLogic.Text.Utf8

/-!
# Consoles

Reports and sessions write to a sink of bytes and draw from a generator. A sink may take only so
many bytes: of a text that does not fit it takes the first bytes and then fails.

Definitions:
* `Sink.put`, `Sink.write`: what a sink takes of some bytes and of a text.
* `Dialogue`: a computation that writes, draws and may fail.
* `Dialogue.print`: writes a text part by part.
* `Dialogue.exemplify`: writes how two sampled objects compare.
* `Task.perform`: writes the report of a reasoning task.
-/

namespace PreferenceLogic

/-! ## Sinks -/

/-- Where bytes are written to. -/
structure Sink where
  /-- How many more bytes the sink takes, if there is a bound. -/
  room : Option Nat := none
  written : Array UInt8 := #[]

namespace Sink

/-- Takes some bytes as far as there is room. Tells whether all of them are taken. -/
def put (s : Sink) (bytes : List UInt8) : Bool × Sink :=
  match s.room with
  | none => (true, { s with written := s.written ++ bytes })
  | some room =>
    (bytes.length ≤ room,
      { room := some (room - bytes.length), written := s.written ++ bytes.take room })

/-- Writes a text. Tells whether the sink took all of it. -/
def write (s : Sink) (t : Text) : Bool × Sink := s.put (Utf8.encode t)

end Sink

/-! ## Dialogues -/

/-- Why a dialogue ends early. -/
inductive Dialogue.Error where
  /-- The sink took only a part of what was written. -/
  | full
  /-- A line of the input is not UTF-8. -/
  | undecodable
  /-- A question about the problem has no answer. -/
  | problem (cause : Problem.Error)
deriving DecidableEq, Repr

namespace Dialogue.Error

/-- The wording of an error. -/
def message : Dialogue.Error → Text
  | full => "failed to write whole buffer".toList
  | undecodable => ReadError.undecodableText
  | problem cause => cause.message

/-- The wording of an error together with that of its cause. -/
def fullText : Dialogue.Error → Text
  | problem cause => cause.fullText
  | e => e.message

end Dialogue.Error

/-- What changes during a dialogue. -/
structure Console where
  sink : Sink := {}
  generator : Generator

instance : Inhabited Console := ⟨{ generator := .seeded 0 }⟩

/-- A computation that writes and draws and may fail. -/
abbrev Dialogue : Type → Type := ExceptT Dialogue.Error (StateM Console)

namespace Dialogue

/-- Writes a text. -/
def write (t : Text) : Dialogue Unit := fun console =>
  let result := console.sink.write t
  (if result.1 then .ok () else .error .full, { console with sink := result.2 })

/-- Writes a text part by part. -/
def print (parts : List Text) : Dialogue Unit := parts.forM write

/-- Draws a sample. -/
def sample {α : Type} (s : Problem.Sampling α) : Dialogue α := fun console =>
  let result := s.run.run console.generator
  (result.1.mapError .problem, { console with generator := result.2 })

/-- Writes how two objects compare that are drawn in a given way. They are drawn before anything is
written. -/
def exemplify (sampler : Sampler) (p : Problem) (logic : Logic) : Dialogue Unit := do
  let e ← sample (p.sampleExample sampler logic)
  print (Report.exemplificationParts logic e)

end Dialogue

/-! ## Tasks -/

/-- A reasoning task. -/
inductive Task where
  | encoding
  | feasibility
  | table
  | exemplification
  | optimization
deriving DecidableEq, Repr

/-- Writes the report of a task. Samples are drawn in a given way. -/
def Task.perform (sampler : Sampler) (p : Problem) (logic : Logic) : Task → Dialogue Unit
  | encoding => Dialogue.print (Report.encodingParts p)
  | feasibility => Dialogue.print (Report.feasibilityParts p)
  | table => Dialogue.print (Report.tableParts p logic)
  | exemplification => Dialogue.exemplify sampler p logic
  | optimization => Dialogue.print (Report.optimizationParts p logic)

end PreferenceLogic
