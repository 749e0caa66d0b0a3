import Std.Data.TreeMap.Lemmas
import PreferenceLogic.Vocabulary

/-!
# Tables of attributes

Attributes are registered one after the other in a table. Beside the attributes the table has an
index, in which each label is entered with the literal that asserts it. A registration checks both
labels before it enters the first one, so the index and the attributes stay consistent whatever is
registered or refused. What is registered then makes up a vocabulary.

Definitions:
* `AttributeTable.add`: registers an attribute and returns its atom.
* `AttributeTable.resolve`, `AttributeTable.label?`: look up labels in the index, and literals in
  the attributes.
* `AttributeTable.Consistent`: the index has the labels of the attributes.
* `AttributeTable.vocabulary`: the vocabulary of a consistent table.

Results:
* `AttributeTable.run_add`: what a registration returns and what it leaves.
* `AttributeTable.Consistent.add`: a registration leaves a consistent table, also where it fails.
-/

namespace PreferenceLogic

/-- Attributes in the order of their atoms, and an index of their labels. -/
structure AttributeTable where
  attributes : Array Attribute
  /-- The literals that assert the labels. -/
  index : Std.TreeMap Text Literal

/-- A call that works on a table and may fail. The table stays as the call has left it, also if the
call fails. -/
abbrev Registering (ε α : Type) := ExceptT ε (StateM AttributeTable) α

namespace AttributeTable

/-! ## Look-ups -/

/-- The table without attributes. -/
def empty : AttributeTable := ⟨#[], ∅⟩

/-- The number of attributes. -/
def size (table : AttributeTable) : Nat := table.attributes.size

/-- The attribute of an atom. -/
def attribute? (table : AttributeTable) (atom : Nat) : Option Attribute := table.attributes[atom]?

/-- The label that a literal asserts. -/
def label? (table : AttributeTable) (l : Literal) : Option Text :=
  (table.attribute? l.atom).map fun a => a.label l.positive

/-- The literal that asserts a label, or the error that the label is unknown. -/
def resolve (table : AttributeTable) (label : Text) : Except LabelError Literal :=
  match table.index[label]? with
  | some l => .ok l
  | none => .error (.unknown label)

/-! ## Registration -/

/-- Enters a label into the index. -/
def enter (label : Text) (l : Literal) (table : AttributeTable) : AttributeTable :=
  { table with index := table.index.insert label l }

/-- Appends an attribute. -/
def push (a : Attribute) (table : AttributeTable) : AttributeTable :=
  { table with attributes := table.attributes.push a }

/-- Refuses a label that the index has. -/
def refuseKnown (label : Text) : Registering LabelError Unit := do
  if (← get).index.contains label then throw (.duplicate label)

/-- Registers an attribute as the last one and returns its atom. The first of its labels that is
already known is refused, and so is a label that it gives to both its values. -/
def add (a : Attribute) : Registering LabelError Nat := do
  forM [a.trueLabel, a.falseLabel] refuseKnown
  if a.trueLabel = a.falseLabel then throw (.duplicate a.trueLabel)
  let atom := (← get).size
  modify (enter a.trueLabel ⟨atom, true⟩)
  modify (enter a.falseLabel ⟨atom, false⟩)
  modify (push a)
  return atom

/-- The table with one attribute more. -/
def register (a : Attribute) (table : AttributeTable) : AttributeTable :=
  push a (enter a.falseLabel ⟨table.size, false⟩ (enter a.trueLabel ⟨table.size, true⟩ table))

section

variable {ε α β : Type} {table later : AttributeTable} {m : Registering ε α}

/-- A call goes on with the table that it has. -/
theorem run_bind_of_ok {a : α} (h : m.run.run table = (.ok a, later)) (f : α → Registering ε β) :
    (m >>= f).run.run table = (f a).run.run later := by
  rw [ExceptT.run_bind, StateT.run_bind, h]
  rfl

/-- A call that has failed stops. -/
theorem run_bind_of_error {e : ε} (h : m.run.run table = (.error e, later))
    (f : α → Registering ε β) : (m >>= f).run.run table = (.error e, later) := by
  rw [ExceptT.run_bind, StateT.run_bind, h]
  rfl

theorem run_get (table : AttributeTable) :
    (get : Registering ε AttributeTable).run.run table = (.ok table, table) := rfl

theorem run_modify (f : AttributeTable → AttributeTable) (table : AttributeTable) :
    (modify f : Registering ε PUnit).run.run table = (.ok ⟨⟩, f table) := rfl

theorem run_throw (e : ε) (table : AttributeTable) :
    (throw e : Registering ε α).run.run table = (.error e, table) := rfl

end

theorem run_refuseKnown (label : Text) (table : AttributeTable) :
    (refuseKnown label).run.run table =
      (if table.index.contains label then .error (.duplicate label) else .ok (), table) := by
  rw [refuseKnown, run_bind_of_ok (run_get table)]
  split
  · rw [run_throw]
  · rfl

/-- Of several labels, the first one that the index has is refused. -/
theorem run_forM_refuseKnown (labels : List Text) (table : AttributeTable) :
    (forM labels refuseKnown).run.run table =
      (match labels.find? table.index.contains with
        | some label => .error (.duplicate label)
        | none => .ok (), table) := by
  induction labels with
  | nil => rfl
  | cons label rest ih =>
    have hlabel := run_refuseKnown label table
    rw [List.forM_cons, List.find?_cons]
    cases hknown : table.index.contains label with
    | true =>
      rw [if_pos hknown] at hlabel
      exact run_bind_of_error hlabel _
    | false =>
      rw [if_neg (ne_true_of_eq_false hknown)] at hlabel
      rw [run_bind_of_ok hlabel]
      exact ih

/-- A registration is refused and changes nothing, or it returns the next atom and leaves the table
with one attribute more. -/
theorem run_add (a : Attribute) (table : AttributeTable) :
    (add a).run.run table =
      match [a.trueLabel, a.falseLabel].find? table.index.contains with
      | some label => (.error (.duplicate label), table)
      | none =>
        if a.trueLabel = a.falseLabel then (.error (.duplicate a.trueLabel), table)
        else (.ok table.size, register a table) := by
  have hchecks := run_forM_refuseKnown [a.trueLabel, a.falseLabel] table
  rw [add]
  cases hknown : [a.trueLabel, a.falseLabel].find? table.index.contains with
  | some label =>
    rw [hknown] at hchecks
    exact run_bind_of_error hchecks _
  | none =>
    rw [hknown] at hchecks
    rw [run_bind_of_ok hchecks]
    dsimp only
    split
    · exact run_bind_of_error (run_throw _ _) _
    · rw [run_bind_of_ok (run_get table), run_bind_of_ok (run_modify _ _),
        run_bind_of_ok (run_modify _ _), run_bind_of_ok (run_modify _ _)]
      rfl

/-! ## Consistency -/

/-- The attributes and the index of a table agree: no label stands for two values, and the index has
the labels of the attributes, each with its literal. -/
structure Consistent (table : AttributeTable) : Prop where
  nodup_labels : (labelsOf table.attributes.toList).Nodup
  index_iff : ∀ label l, table.index[label]? = some l ↔ table.label? l = some label

theorem index_register (a : Attribute) (table : AttributeTable) (label : Text) :
    (register a table).index[label]? =
      if a.falseLabel = label then some ⟨table.size, false⟩
      else if a.trueLabel = label then some ⟨table.size, true⟩
      else table.index[label]? := by
  simp only [register, push, enter, Std.TreeMap.getElem?_insert, Std.LawfulEqCmp.compare_eq_iff_eq]

theorem label?_register (a : Attribute) (table : AttributeTable) (l : Literal) :
    (register a table).label? l =
      if l.atom = table.size then some (a.label l.positive) else table.label? l := by
  have hattribute : (register a table).attribute? l.atom =
      if l.atom = table.size then some a else table.attribute? l.atom :=
    Array.getElem?_push
  rw [label?, hattribute]
  split
  · rw [Option.map_some]
  · rw [label?]

theorem ne_size_of_label? {table : AttributeTable} {l : Literal} {label : Text}
    (h : table.label? l = some label) : l.atom ≠ table.size := by
  obtain ⟨a, ha, -⟩ := Option.map_eq_some_iff.mp h
  exact Nat.ne_of_lt (Array.getElem?_eq_some_iff.mp ha).1

theorem mem_labelsOf_iff {table : AttributeTable} {label : Text} :
    label ∈ labelsOf table.attributes.toList ↔ ∃ l, table.label? l = some label := by
  rw [mem_labelsOf]
  constructor
  · rintro ⟨a, ha, positive, rfl⟩
    obtain ⟨i, hi⟩ := List.mem_iff_getElem?.mp ha
    refine ⟨⟨i, positive⟩, ?_⟩
    rw [label?, attribute?, ← Array.getElem?_toList, hi, Option.map_some]
  · rintro ⟨l, h⟩
    obtain ⟨a, ha, hlabel⟩ := Option.map_eq_some_iff.mp h
    exact ⟨a, Array.mem_toList_iff.mpr (Array.mem_of_getElem? ha), l.positive, hlabel⟩

theorem consistent_empty : empty.Consistent where
  nodup_labels := List.nodup_nil
  index_iff label l := by simp [empty, label?, attribute?]

namespace Consistent

variable {table : AttributeTable} (h : table.Consistent) {a : Attribute}

include h

/-- The index knows the labels of the attributes. -/
theorem contains_iff {label : Text} :
    table.index.contains label = true ↔ label ∈ labelsOf table.attributes.toList := by
  rw [Std.TreeMap.contains_eq_isSome_getElem?, Option.isSome_iff_exists, mem_labelsOf_iff]
  exact exists_congr fun l => h.index_iff label l

/-- A table that takes an attribute with two labels that are new stays consistent. -/
theorem register (htrue : a.trueLabel ∉ labelsOf table.attributes.toList)
    (hfalse : a.falseLabel ∉ labelsOf table.attributes.toList)
    (hne : a.trueLabel ≠ a.falseLabel) : (table.register a).Consistent where
  nodup_labels := by
    have hattributes : (table.register a).attributes.toList = table.attributes.toList ++ [a] :=
      Array.toList_push
    rw [hattributes, labelsOf_append, List.nodup_append]
    refine ⟨h.nodup_labels, by simp [labelsOf, Attribute.labels, hne], ?_⟩
    rintro label hlabel other hother rfl
    simp only [labelsOf, List.flatMap_cons, List.flatMap_nil, Attribute.labels, List.append_nil,
      List.mem_cons, List.not_mem_nil, or_false] at hother
    rcases hother with rfl | rfl
    · exact htrue hlabel
    · exact hfalse hlabel
  index_iff label l := by
    -- the new labels are no old ones, and the new atom is no old one
    have hlabel : table.label? l = some label → label ∈ labelsOf table.attributes.toList :=
      fun hlabel => mem_labelsOf_iff.mpr ⟨l, hlabel⟩
    have hatom : table.label? l = some label → l.atom ≠ table.size := ne_size_of_label?
    have hindex := h.index_iff label l
    rw [index_register, label?_register]
    obtain ⟨atom, positive⟩ := l
    cases positive <;> grind [Attribute.label]

/-- A registration keeps the table consistent, whether it is refused or not. -/
theorem add (a : Attribute) : ((AttributeTable.add a).run.run table).2.Consistent := by
  rw [run_add]
  cases hknown : [a.trueLabel, a.falseLabel].find? table.index.contains with
  | some label => exact h
  | none =>
    dsimp only
    split
    · exact h
    · rename_i hne
      rw [List.find?_eq_none] at hknown
      refine h.register ?_ ?_ hne
      · rw [← h.contains_iff]
        exact hknown _ List.mem_cons_self
      · rw [← h.contains_iff]
        exact hknown _ (List.mem_cons_of_mem _ List.mem_cons_self)

end Consistent

/-- The vocabulary of the attributes of a consistent table. -/
def vocabulary (table : AttributeTable) (h : table.Consistent) : Vocabulary :=
  ⟨table.attributes.toList, h.nodup_labels⟩

end AttributeTable

end PreferenceLogic
