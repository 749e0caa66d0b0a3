import PreferenceLogic.Vocabulary

/-!
# The object space

An object chooses a value for every attribute. The objects of a vocabulary are numbered: the binary
digits of the number are the choices, the first attribute being the most significant digit and the
positive literal being one.

Definitions:
* `Vocabulary.objects`: all objects in the order of their numbers.
* `Object.pinned`: a formula together with the choices of an object, satisfiable exactly when the
  object satisfies the formula.
-/

namespace PreferenceLogic

/-- A choice of a value for every attribute. -/
structure Object where
  id : Nat
  /-- Whether the positive literal is chosen, attribute by attribute. -/
  bits : List Bool
  /-- The chosen labels, attribute by attribute. -/
  labels : List Text
  /-- The chosen literals, attribute by attribute. -/
  literals : List Literal
deriving DecidableEq, Inhabited, Repr

namespace Object

/-- The name of the object with a given number. -/
def nameOf (id : Nat) : Text := 'o' :: Text.decimal id

/-- The name of an object. -/
def name (o : Object) : Text := nameOf o.id

/-- The choices of an object as binary digits. -/
def bitstring (o : Object) : Text := o.bits.map fun bit => if bit then '1' else '0'

/-- An object as it is listed, part by part: its name and its labels. -/
def parts (o : Object) : List Text :=
  [o.name, " - ".toList, List.intercalate ", ".toList o.labels]

/-- An object as it is listed. -/
def description (o : Object) : Text := o.parts.flatten

/-- A formula with the choices of an object added as clauses of one literal. -/
def pinned (o : Object) (f : Formula) : Formula :=
  .ofClauses f.atoms (f.clauses ++ o.literals.map fun l => [l])

end Object

/-- The binary digits of a number, the most significant of the given width first. -/
def bitsOf (width n : Nat) : List Bool :=
  (List.range width).map fun position => n.testBit (width - 1 - position)

namespace Vocabulary

/-- The object with a given number. -/
def object (v : Vocabulary) (id : Nat) : Object :=
  let bits := bitsOf v.size id
  { id, bits
    labels := List.zipWith Attribute.label v.attributes bits
    literals := List.zipWith Literal.mk (List.range v.size) bits }

/-- All objects in the order of their numbers. -/
def objects (v : Vocabulary) : List Object := (List.range (Nat.pow 2 v.size)).map v.object

end Vocabulary

end PreferenceLogic
