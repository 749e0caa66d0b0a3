import PreferenceLogic.File.Content
import PreferenceLogic.Language
import PreferenceLogic.Vocabulary.Table

/-!
# The four problem files

A problem is described by its attributes, its hard constraints, its penalty rules and its choice
rules, each in a file of its own with one entry per content line.

Definitions:
* `Attribute.parse`: reads a declaration, a category and two labels.
* `AttributeTable.declare`, `Vocabulary.declare`: register a declared attribute, in a table and in a
  vocabulary.
* `Vocabulary.read`, `Formula.read`, `PenaltyRule.read`, `ChoiceRule.read`: the four readers.
-/

namespace PreferenceLogic

/-! ## Attributes -/

/-- Reads a declaration. The category ends at the first colon, and exactly one comma divides the
labels. All three are trimmed, and none is empty. -/
def Attribute.parse (t : Text) : Except Fault Attribute :=
  match Text.cutFirst? [':'] t with
  | none => .error (.declaration t)
  | some (category, labels) =>
    match Text.trim category, (labels.splitOn ',').map Text.trim with
    | c :: category, [a :: trueLabel, b :: falseLabel] =>
      .ok { category := c :: category, trueLabel := a :: trueLabel, falseLabel := b :: falseLabel }
    | _, _ => .error (.declaration t)

namespace AttributeTable

/-- Registers the attribute that a text declares and returns its atom. -/
def declare (t : Text) : Registering Fault Nat := do
  let a ← MonadExcept.ofExcept (Attribute.parse t)
  (add a).adapt .label

theorem run_declare (t : Text) (table : AttributeTable) :
    (declare t).run.run table =
      match Attribute.parse t with
      | .error fault => (.error fault, table)
      | .ok a => (((add a).run.run table).1.mapError .label, ((add a).run.run table).2) := by
  rw [declare]
  cases Attribute.parse t with
  | error fault => rfl
  | ok a => rfl

/-- A declaration keeps the table consistent, whether it is refused or not. -/
theorem Consistent.declare {table : AttributeTable} (h : table.Consistent) (t : Text) :
    ((AttributeTable.declare t).run.run table).2.Consistent := by
  rw [run_declare]
  cases Attribute.parse t with
  | error fault => exact h
  | ok a => exact h.add a

/-- Registers a declared attribute and goes on with the table. -/
def step (table : AttributeTable) (t : Text) : Except Fault AttributeTable :=
  let (answer, later) := (declare t).run.run table
  answer.map fun _ => later

theorem Consistent.step {table later : AttributeTable} {t : Text} (h : table.Consistent)
    (hstep : table.step t = .ok later) : later.Consistent := by
  have hlater := h.declare t
  rw [AttributeTable.step] at hstep
  rcases hrun : (AttributeTable.declare t).run.run table with ⟨answer, found⟩
  rw [hrun] at hstep hlater
  cases answer with
  | error fault => cases hstep
  | ok atom =>
    cases hstep
    exact hlater

/-- Reads attribute declarations into a table. -/
def read (input : List UInt8) : Except ReadError AttributeTable := File.fold step empty input

theorem consistent_of_read {input : List UInt8} {table : AttributeTable}
    (h : read input = .ok table) : table.Consistent :=
  File.fold_induction consistent_empty (fun _ _ _ => Consistent.step) h

end AttributeTable

namespace Vocabulary

/-- Registers the attribute that a text declares. -/
def declare (v : Vocabulary) (t : Text) : Except Fault Vocabulary :=
  match Attribute.parse t with
  | .error fault => .error fault
  | .ok a =>
    match v.add a with
    | .error cause => .error (.label cause)
    | .ok v => .ok v

/-- Reads attribute declarations: registers them in a table and takes its attributes. -/
def read (input : List UInt8) : Except ReadError Vocabulary :=
  match h : AttributeTable.read input with
  | .error cause => .error cause
  | .ok table => .ok (table.vocabulary (AttributeTable.consistent_of_read h))

end Vocabulary

/-! ## Hard constraints -/

/-- Reads constraints: the clauses of all lines, in the order of the lines. -/
def Formula.read (v : Vocabulary) (input : List UInt8) : Except ReadError Formula :=
  (File.collect (fun line => (parse v line).mapError .label) input).map fun formulas =>
    ofClauses v.size (formulas.flatMap Formula.clauses)

/-! ## Rules -/

/-- Reads penalty rules. -/
def PenaltyRule.read (v : Vocabulary) (input : List UInt8) : Except ReadError (List PenaltyRule) :=
  File.collect (parse v) input

/-- Reads choice rules. -/
def ChoiceRule.read (v : Vocabulary) (input : List UInt8) : Except ReadError (List ChoiceRule) :=
  File.collect (parse v) input

end PreferenceLogic
