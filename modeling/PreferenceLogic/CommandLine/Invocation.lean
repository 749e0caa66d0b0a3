import PreferenceLogic.CommandLine.Option
import PreferenceLogic.Console

/-!
# Invocations

A command line names the four files of a problem, settings of parameters, and perhaps a task, with
the logic it is to be performed in. Without a task the menu is opened.

Definitions:
* `Invocation.parse?`: reads a command line.
-/

namespace PreferenceLogic

namespace CommandLine

/-- The options in front of the task. -/
inductive MainOption where
  | attributes
  | constraints
  | penalty
  | qualitative
  /-- A file with parameters. -/
  | config
  /-- A single parameter. -/
  | setting
deriving DecidableEq, Repr

namespace MainOption

/-- The options that name a file and may stand only once. -/
def files : List MainOption := [attributes, constraints, penalty, qualitative, config]

/-- All options. -/
def all : List MainOption := setting :: files

/-- The name of an option. -/
def name : MainOption → Text
  | attributes => "attributes".toList
  | constraints => "constraints".toList
  | penalty => "penalty".toList
  | qualitative => "qualitative".toList
  | config => "config".toList
  | setting => "config-option".toList

/-- The names of the options in front of the task. -/
def names : OptionNames MainOption where
  long? name := all.find? fun option => option.name == name
  short? letter := if letter = 'C' then some setting else none

end MainOption

/-- The option after the task. -/
inductive TaskOption where
  | logic
deriving DecidableEq, Repr

/-- The name of the option after the task. -/
def TaskOption.names : OptionNames TaskOption where
  long? name := if name = "logic".toList then some .logic else none
  short? _ := none

/-- The names after a task that is the same in both logics: none. -/
def noNames : OptionNames TaskOption where
  long? _ := none
  short? _ := none

end CommandLine

/-! ## Tasks by name -/

namespace Task

/-- All tasks. -/
def all : List Task := [encoding, feasibility, table, exemplification, optimization]

/-- The name of a task. -/
def name : Task → Text
  | encoding => "encoding".toList
  | feasibility => "feasibility".toList
  | table => "table".toList
  | exemplification => "exemplify".toList
  | optimization => "optimize".toList

/-- The task with a given name. -/
def ofName? (name : Text) : Option Task := all.find? fun task => task.name == name

/-- Whether the report of a task depends on the logic. -/
def takesLogic : Task → Bool
  | encoding | feasibility => false
  | table | exemplification | optimization => true

end Task

/-! ## Invocations -/

/-- What a command line asks for. -/
structure Invocation where
  attributes : Option Text
  constraints : Option Text
  penalty : Option Text
  qualitative : Option Text
  /-- The file with parameters. -/
  config : Option Text
  /-- Single parameters, each written as a document. -/
  settings : List Text
  /-- The task and its logic. -/
  task : Option (Task × Logic)
deriving DecidableEq, Repr

namespace Invocation

open CommandLine

/-- Reads the words after a task: at most one logic. The logic is penalty logic unless it is
named. -/
def parseTask? (name : Text) (words : List Text) : Option (Task × Logic) := do
  let task ← Task.ofName? name
  let found ← scan (if task.takesLogic then TaskOption.names else noNames) none words
  if found.command.isSome || found.count .logic > 1 then none
  else match found.values .logic with
    | [] => some (task, .penalty)
    | name :: _ => (Logic.ofName? name).map fun logic => (task, logic)

/-- Reads a command line. It cannot be read if an option or a task is unknown, if a file is named
twice, or if an option never gets a value. -/
def parse? (words : List Text) : Option Invocation := do
  let found ← scan MainOption.names none words
  let task ← found.command.mapM fun (name, words) => parseTask? name words
  if MainOption.all.any found.lacksValue ||
    MainOption.files.any (fun option => found.count option > 1) then none
  else some {
    attributes := (found.values .attributes).head?
    constraints := (found.values .constraints).head?
    penalty := (found.values .penalty).head?
    qualitative := (found.values .qualitative).head?
    config := (found.values .config).head?
    settings := found.values .setting
    task }

/-- The setting that asks what the parameters mean. -/
def helpSetting : Text := "help".toList

/-- Whether the invocation asks what the parameters mean. -/
def asksForHelp (i : Invocation) : Bool := i.settings.contains helpSetting

end Invocation

end PreferenceLogic
