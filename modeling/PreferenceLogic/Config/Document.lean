import PreferenceLogic.Config.Basic
import PreferenceLogic.Toml.Document

/-!
# Configuration documents

A configuration document is a TOML document of which parameters are the keys and integers the
values. The whole document is read before any entry counts, and then the entries count in their
order.

Definitions:
* `Config.Update.ofDocument`: the update that a document describes.
-/

namespace PreferenceLogic.Config

/-! ## Errors -/

/-- Why a document is no update. -/
inductive Error where
  /-- The document cannot be read. -/
  | malformed
  /-- No parameter has the name. -/
  | unknown (key : Text) (place : Toml.Place)
  /-- A parameter is given twice. -/
  | duplicate (key : Text) (place : Toml.Place)
  /-- A parameter cannot have the value. -/
  | invalid (key : Text)
deriving DecidableEq, Repr

/-- The wording of a place in a document. -/
def placeText (place : Toml.Place) : Text :=
  " at line ".toList ++ Text.decimal place.line ++ " column ".toList ++ Text.decimal place.column

/-- The wording of an error. -/
def Error.message : Error → Text
  | malformed => "malformed configuration".toList
  | unknown key place =>
    "unknown field `".toList ++ key ++ "`, expected `max_attributes` or `seed`".toList ++
      placeText place
  | duplicate key place => "duplicate field `".toList ++ key ++ "`".toList ++ placeText place
  | invalid key => "invalid value for key `".toList ++ key ++ "`".toList

/-! ## Updates -/

/-- The number that a parameter may have as its value. -/
def parameter? : Toml.Value → Option Nat
  | .integer n => if 0 ≤ n then some n.toNat else none
  | .other => none

/-- Adds an entry to the update that the entries before it describe. Errors about the key of an
entry tell the given place. -/
def Update.addEntry (place : Toml.Place) (u : Update) (e : Toml.Entry) : Except Error Update :=
  let value (current : Option Nat) : Except Error Nat :=
    match current, parameter? e.value with
    | some _, _ => .error (.duplicate e.key place)
    | none, none => .error (.invalid e.key)
    | none, some n => .ok n
  if e.key = "max_attributes".toList then
    (value u.maxAttributes).map fun n => { u with maxAttributes := some n }
  else if e.key = "seed".toList then (value u.seed).map fun n => { u with seed := some n }
  else .error (.unknown e.key place)

/-- The update that a document describes. An error about a key does not tell where the key stands,
but where the last table of the document starts. -/
def Update.ofDocument (t : Text) : Except Error Update :=
  match Toml.Document.parse? t with
  | none => .error .malformed
  | some d => d.entries.foldlM (addEntry d.lastTable) {}

end PreferenceLogic.Config
