import PreferenceLogic.Text.Decimal

/-!
# Sources

A source is what a path leads to once it is opened. A directory can be opened like a file, but it
cannot be read. The standard input can be opened too; whoever reads it first takes all of it.

Definitions:
* `SystemError`: why the system refuses to open or to read something.
* `Source.take`: the content of a source, and what is left of the standard input.

Results:
* `Source.take_input_twice`: the standard input has a content once.
-/

namespace PreferenceLogic

/-! ## Errors of the system -/

/-- Why the system refuses to open or to read something. -/
structure SystemError where
  /-- The number of the error. -/
  code : Nat
  /-- What is the matter. -/
  reason : Text
deriving DecidableEq, Repr

namespace SystemError

/-- The path leads nowhere. -/
def missing : SystemError := ⟨2, "No such file or directory".toList⟩

/-- The path leads to something that may not be seen. -/
def denied : SystemError := ⟨13, "Permission denied".toList⟩

/-- The path goes on after a file. -/
def notDirectory : SystemError := ⟨20, "Not a directory".toList⟩

/-- A directory has no content. -/
def isDirectory : SystemError := ⟨21, "Is a directory".toList⟩

/-- The path, or a name on it, is longer than the system allows. -/
def nameTooLong : SystemError := ⟨36, "File name too long".toList⟩

/-- The errors that are common with paths. -/
def known : List SystemError := [missing, denied, notDirectory, isDirectory, nameTooLong]

/-- The error with a number, with a reason of its own if it is not common. -/
def ofCode (code : Nat) (reason : Text) : SystemError :=
  (known.find? fun e => e.code == code).getD ⟨code, reason⟩

/-- The wording of an error: what is the matter and the number. -/
def message (e : SystemError) : Text :=
  e.reason ++ " (os error ".toList ++ Text.decimal e.code ++ ")".toList

end SystemError

/-! ## Sources -/

/-- What a path leads to. -/
inductive Source where
  /-- A file. -/
  | content (bytes : List UInt8)
  | directory
  /-- The standard input. -/
  | input
deriving DecidableEq, Repr

namespace Source

/-- The content of a source, and what is left of the standard input. -/
def take : Source → List UInt8 → Except SystemError (List UInt8) × List UInt8
  | content bytes, rest => (.ok bytes, rest)
  | directory, rest => (.error .isDirectory, rest)
  | input, rest => (.ok rest, [])

theorem take_input_twice (rest : List UInt8) :
    input.take (input.take rest).2 = (.ok [], []) := rfl

end Source

end PreferenceLogic
