import PreferenceLogic.Vocabulary

/-!
# Errors in problem files

A fault is what is wrong with one line; a line error is a fault at a numbered line. A file can also
hold a line that is no text at all.

Every error has a message. Where another error caused it, its full text is the message, a colon,
and the message of the cause.
-/

namespace PreferenceLogic

/-! ## Faults -/

/-- What can be wrong with a line. -/
inductive Fault where
  /-- The line does not declare an attribute. -/
  | declaration (text : Text)
  /-- The line has no comma, so it is no penalty rule. -/
  | penaltyRule (text : Text)
  /-- What follows the last comma is no penalty. -/
  | penalty (value : Text)
  /-- A label is registered or used wrongly. -/
  | label (cause : LabelError)
deriving DecidableEq, Repr

namespace Fault

/-- The wording of a fault. -/
def message : Fault → Text
  | declaration text =>
    "Invalid attribute declaration ".toList ++ Text.quoted text ++ ", expected ".toList ++
      Text.quoted "Category: label, label".toList
  | penaltyRule text =>
    "Invalid penalty rule ".toList ++ Text.quoted text ++ ", expected ".toList ++
      Text.quoted "formula, penalty".toList
  | penalty value =>
    "Invalid penalty ".toList ++ Text.quoted value ++ ", expected a non-negative integer".toList
  | label cause => cause.message

/-- The error behind a fault. -/
def cause? : Fault → Option LabelError
  | label cause => some cause
  | _ => none

end Fault

/-! ## Line errors -/

/-- A fault at a line. -/
structure LineError where
  /-- The number of the line, counted from one. -/
  line : Nat
  fault : Fault
deriving DecidableEq, Repr

namespace LineError

/-- The wording of an error: the line and the fault. -/
def message (e : LineError) : Text :=
  "line ".toList ++ Text.decimal e.line ++ ": ".toList ++ e.fault.message

/-- The wording of an error together with that of its cause. -/
def fullText (e : LineError) : Text :=
  match e.fault.cause? with
  | some cause => e.message ++ ": ".toList ++ cause.message
  | none => e.message

end LineError

/-! ## Reading errors -/

/-- What can go wrong while a file is read. -/
inductive ReadError where
  /-- A line is not UTF-8. -/
  | undecodable
  | line (error : LineError)
deriving DecidableEq, Repr

namespace ReadError

/-- The wording for bytes that are no text. -/
def undecodableText : Text := "stream did not contain valid UTF-8".toList

/-- The wording of a reading error. -/
def message : ReadError → Text
  | undecodable => undecodableText
  | line error => error.message

/-- The wording of a reading error together with that of its cause. -/
def fullText : ReadError → Text
  | undecodable => undecodableText
  | line error => error.fullText

end ReadError

end PreferenceLogic
