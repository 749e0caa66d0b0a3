import PreferenceLogic.Formula.Basic
import PreferenceLogic.Text.Decimal
import PreferenceLogic.Text.Separator

/-!
# Attributes and vocabularies

An attribute has two values, each with a label. A vocabulary is a list of attributes whose labels
are pairwise distinct, so a label alone tells the attribute and the value. The attribute at a
position is the atom of that number; its first label is the positive literal, its second label the
negative one.

Definitions:
* `Vocabulary.add`: registers an attribute.
* `Vocabulary.literal?`, `Vocabulary.label?`: from labels to literals and back.
* `LabelError`: what can be wrong with a label that is registered or used.
-/

namespace PreferenceLogic

/-! ## Attributes -/

/-- A category with two mutually exclusive value labels. -/
structure Attribute where
  category : Text
  /-- The label of the positive literal. -/
  trueLabel : Text
  /-- The label of the negative literal. -/
  falseLabel : Text
deriving DecidableEq, Repr

namespace Attribute

/-- The label of one of the two values. -/
def label (a : Attribute) (positive : Bool) : Text := if positive then a.trueLabel else a.falseLabel

/-- Both labels. -/
def labels (a : Attribute) : List Text := [a.trueLabel, a.falseLabel]

/-- The declaration of an attribute: the category, a colon, and the two labels. -/
def declaration (a : Attribute) : Text :=
  a.category ++ ": ".toList ++ a.trueLabel ++ ", ".toList ++ a.falseLabel

end Attribute

/-! ## Errors -/

/-- The word that negates the label after it. -/
def negationMarker : Text := ['N', 'O', 'T']

/-- What can be wrong with a label where it is registered or used. -/
inductive LabelError where
  /-- No attribute has the label. -/
  | unknown (label : Text)
  /-- A literal consists of neither one word nor two. -/
  | malformed (literal : Text) (words : Nat)
  /-- A literal of two words does not start with the negation marker. -/
  | invalidNegation (marker literal : Text)
  /-- A label would be registered a second time. -/
  | duplicate (label : Text)
deriving DecidableEq, Repr

/-- The wording of an error about a label. -/
def LabelError.message : LabelError → Text
  | unknown label => "Unknown value label ".toList ++ Text.quoted label
  | malformed literal words =>
    "Malformed literal ".toList ++ Text.quoted literal ++ ": expected a label or ".toList ++
      Text.quoted (negationMarker ++ " label".toList) ++ " but found ".toList ++
      Text.decimal words ++ " tokens".toList
  | invalidNegation marker literal =>
    "Invalid negation ".toList ++ Text.quoted marker ++ " in literal ".toList ++
      Text.quoted literal ++ ", expected ".toList ++ Text.quoted negationMarker
  | duplicate label =>
    "Value label ".toList ++ Text.quoted label ++ " is registered more than once".toList

/-! ## Vocabularies -/

/-- The labels of some attributes, in order. -/
def labelsOf (attributes : List Attribute) : List Text := attributes.flatMap Attribute.labels

theorem labelsOf_cons (a : Attribute) (rest : List Attribute) :
    labelsOf (a :: rest) = a.trueLabel :: a.falseLabel :: labelsOf rest := rfl

theorem labelsOf_append (before after : List Attribute) :
    labelsOf (before ++ after) = labelsOf before ++ labelsOf after :=
  List.flatMap_append

theorem mem_labelsOf {attributes : List Attribute} {label : Text} :
    label ∈ labelsOf attributes ↔ ∃ a ∈ attributes, ∃ positive, a.label positive = label := by
  simp only [labelsOf, List.mem_flatMap]
  constructor
  · rintro ⟨a, ha, hlabel⟩
    simp only [Attribute.labels, List.mem_cons, List.not_mem_nil, or_false] at hlabel
    rcases hlabel with rfl | rfl
    · exact ⟨a, ha, true, rfl⟩
    · exact ⟨a, ha, false, rfl⟩
  · rintro ⟨a, ha, positive, rfl⟩
    refine ⟨a, ha, ?_⟩
    cases positive <;> simp [Attribute.labels, Attribute.label]

/-- Attributes in the order of their atoms. -/
structure Vocabulary where
  attributes : List Attribute
  /-- No label stands for two values. -/
  nodup_labels : (labelsOf attributes).Nodup
deriving DecidableEq, Repr

namespace Vocabulary

/-- The vocabulary without attributes. -/
def empty : Vocabulary := ⟨[], List.nodup_nil⟩

/-- The number of attributes. -/
def size (v : Vocabulary) : Nat := v.attributes.length

/-- All labels, in the order of the attributes. -/
def labels (v : Vocabulary) : List Text := labelsOf v.attributes

/-- Registers an attribute as the last one. The first of its labels that is already known is
refused, and so is a label that it gives to both its values. -/
def add (v : Vocabulary) (a : Attribute) : Except LabelError Vocabulary :=
  if hTrue : a.trueLabel ∈ v.labels then .error (.duplicate a.trueLabel)
  else if hFalse : a.falseLabel ∈ v.labels then .error (.duplicate a.falseLabel)
  else if hSame : a.trueLabel = a.falseLabel then .error (.duplicate a.trueLabel)
  else .ok {
    attributes := v.attributes ++ [a]
    nodup_labels := by
      have hFalse' : a.falseLabel ∉ labelsOf v.attributes := hFalse
      have hTrue' : a.trueLabel ∉ labelsOf v.attributes := hTrue
      simp only [labelsOf, List.flatMap_append, List.flatMap_cons, List.flatMap_nil,
        List.append_nil, Attribute.labels]
      rw [List.nodup_append]
      refine ⟨v.nodup_labels, by simp [hSame], ?_⟩
      intro label hlabel other hother heq
      simp only [List.mem_cons, List.not_mem_nil, or_false] at hother
      subst heq
      rcases hother with rfl | rfl
      · exact hTrue' hlabel
      · exact hFalse' hlabel }

/-- The attribute of an atom. -/
def attribute? (v : Vocabulary) (atom : Nat) : Option Attribute := v.attributes[atom]?

/-- The label that a literal asserts. -/
def label? (v : Vocabulary) (l : Literal) : Option Text :=
  (v.attribute? l.atom).map fun a => a.label l.positive

/-- The literal that asserts a label, where the first of the attributes is the given atom. -/
def literalFrom? (label : Text) : Nat → List Attribute → Option Literal
  | _, [] => none
  | atom, a :: rest =>
    if label = a.trueLabel then some ⟨atom, true⟩
    else if label = a.falseLabel then some ⟨atom, false⟩
    else literalFrom? label (atom + 1) rest

/-- The literal that asserts a label. -/
def literal? (v : Vocabulary) (label : Text) : Option Literal := literalFrom? label 0 v.attributes

/-- The literal that asserts a label, or the error that the label is unknown. -/
def resolve (v : Vocabulary) (label : Text) : Except LabelError Literal :=
  match v.literal? label with
  | some l => .ok l
  | none => .error (.unknown label)

end Vocabulary

end PreferenceLogic
