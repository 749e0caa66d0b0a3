import PreferenceLogic.Text.Separator

/-!
# Command line options

Words of a command line that start with a minus sign are options. Every option takes a value: in the
same word after an equals sign, for a one-letter option also right after the letter, or else in the
next word. A word that starts with a minus sign is never the value of the option before it; that
option then has no value.

Definitions:
* `CommandLine.scan`: the options of a command line up to the first word that is none.
-/

namespace PreferenceLogic.CommandLine

/-- An option in a command line, with its value if it has one. -/
structure Occurrence (ω : Type) where
  option : ω
  value : Option Text
deriving DecidableEq, Repr

/-- The names of options. -/
structure OptionNames (ω : Type) where
  /-- The option with a name after two minus signs. -/
  long? : Text → Option ω
  /-- The option with a letter after one minus sign. -/
  short? : Char → Option ω

/-- What is found in a command line. -/
structure Scan (ω : Type) where
  /-- The options, in their order. -/
  occurrences : List (Occurrence ω)
  /-- The first word that is neither option nor value, and the words after it. -/
  command : Option (Text × List Text)

namespace Scan

variable {ω : Type}

/-- Nothing. -/
def empty : Scan ω where
  occurrences := []
  command := none

/-- An option in front of what was found. -/
def after (option : ω) (value : Option Text) (s : Scan ω) : Scan ω :=
  { s with occurrences := ⟨option, value⟩ :: s.occurrences }

/-- An option that has got no value, if there is one, in front of what was found. -/
def afterWaiting (waiting : Option ω) (s : Scan ω) : Scan ω :=
  match waiting with
  | some option => s.after option none
  | none => s

end Scan

/-- A value without the equals signs in front of it. -/
def valueOf (t : Text) : Text := t.dropWhile (· == '=')

/-- Reads a word that starts with a minus sign: the option, and its value if the word holds one. -/
def readOption? {ω : Type} (names : OptionNames ω) (word : Text) : Option (ω × Option Text) :=
  match word with
  | '-' :: '-' :: rest =>
    let body := rest.dropWhile (· == '-')
    match Text.cutFirst? ['='] body with
    | some (name, value) => (names.long? name).map fun option => (option, some (valueOf value))
    | none => (names.long? body).map fun option => (option, none)
  | '-' :: letter :: rest =>
    (names.short? letter).map fun option =>
      (option, if rest = [] then none else some (valueOf rest))
  | _ => none

/-- The options of a command line up to the first word that is none, where an option may wait for
its value. No word may follow two minus signs that stand alone. -/
def scan {ω : Type} (names : OptionNames ω) (waiting : Option ω) : List Text → Option (Scan ω)
  | [] => some (Scan.empty.afterWaiting waiting)
  | word :: rest =>
    match word with
    | ['-', '-'] => if rest = [] then some (Scan.empty.afterWaiting waiting) else none
    | '-' :: _ :: _ =>
      match readOption? names word with
      | none => none
      | some (option, some value) =>
        (scan names none rest).map fun s => (s.after option (some value)).afterWaiting waiting
      | some (option, none) =>
        (scan names (some option) rest).map fun s => s.afterWaiting waiting
    | _ =>
      match waiting with
      | some option => (scan names none rest).map (Scan.after option (some word))
      | none => some { Scan.empty with command := some (word, rest) }

namespace Scan

variable {ω : Type} [DecidableEq ω]

/-- The values given to an option, in their order. -/
def values (s : Scan ω) (option : ω) : List Text :=
  (s.occurrences.filter fun o => o.option = option).filterMap Occurrence.value

/-- How often an option is named. -/
def count (s : Scan ω) (option : ω) : Nat :=
  (s.occurrences.filter fun o => o.option = option).length

/-- Whether an option is named, but never gets a value. -/
def lacksValue (s : Scan ω) (option : ω) : Bool :=
  s.count option > 0 && (s.values option).isEmpty

end Scan

end PreferenceLogic.CommandLine
