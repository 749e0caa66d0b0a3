import PreferenceLogic.Proofs.Vocabulary.Declaration

/-!
# Tables and their vocabularies

The attributes of a consistent table are a vocabulary, and its index answers what the vocabulary
answers. What is registered in the table is registered in the vocabulary, and what the one refuses
the other one refuses for the same reason. So a file of attributes is read exactly when each line is
a declaration and no label is used twice.

Definitions:
* `AttributeTable.Represents`: a consistent table has the attributes of a vocabulary.

Results:
* `AttributeTable.add_cases`: what a registration in a consistent table does.
* `AttributeTable.Represents.resolve_eq`, `AttributeTable.Represents.label?_eq`: the look-ups agree.
* `AttributeTable.Represents.add_of_ok`, `AttributeTable.Represents.add_of_error`: so do the
  registrations.
* `Vocabulary.read_eq_fold`: reading registers the declarations one after the other.
* `Vocabulary.read_eq_ok_iff`: the files of attributes that are read.
-/

namespace PreferenceLogic

namespace AttributeTable

variable {table later : AttributeTable} {v w : Vocabulary} {a : Attribute} {t : Text}

/-! ## Registering in a table -/

/-- All labels, in the order of the attributes. -/
def labels (table : AttributeTable) : List Text := labelsOf table.attributes.toList

/-- A registration in a consistent table is refused and changes nothing, or the attribute has new
labels and becomes the last one. -/
theorem add_cases (h : table.Consistent) (a : Attribute) :
    (∃ label, a.RefusedBy table.labels label ∧
      (add a).run.run table = (.error (.duplicate label), table)) ∨
    (∀ label, ¬ a.RefusedBy table.labels label) ∧
      (add a).run.run table = (.ok table.size, table.register a) ∧
      (table.register a).Consistent := by
  have hknown : ∀ label, table.index.contains label = decide (label ∈ table.labels) := fun label =>
    Bool.eq_iff_iff.mpr (h.contains_iff.trans decide_eq_true_iff.symm)
  rw [run_add, List.find?_cons, List.find?_cons, List.find?_nil, hknown, hknown]
  by_cases htrue : a.trueLabel ∈ table.labels
  · rw [decide_eq_true htrue]
    exact .inl ⟨_, .trueLabel htrue, rfl⟩
  by_cases hfalse : a.falseLabel ∈ table.labels
  · rw [decide_eq_false htrue, decide_eq_true hfalse]
    exact .inl ⟨_, .falseLabel htrue hfalse, rfl⟩
  rw [decide_eq_false htrue, decide_eq_false hfalse]
  by_cases hsame : a.trueLabel = a.falseLabel
  · exact .inl ⟨_, .both htrue hfalse hsame, if_pos hsame⟩
  · exact .inr ⟨Attribute.not_refusedBy_iff.mpr ⟨htrue, hfalse, hsame⟩, if_neg hsame,
      h.register htrue hfalse hsame⟩

/-! ## The vocabulary of a table -/

/-- A consistent table has the attributes of a vocabulary. -/
structure Represents (table : AttributeTable) (v : Vocabulary) : Prop where
  consistent : table.Consistent
  attributes_eq : table.attributes.toList = v.attributes

theorem represents_vocabulary (h : table.Consistent) : table.Represents (table.vocabulary h) :=
  ⟨h, rfl⟩

theorem represents_empty : empty.Represents .empty := ⟨consistent_empty, rfl⟩

namespace Represents

variable (h : table.Represents v)

include h

theorem size_eq : table.size = v.size := by
  rw [size, Vocabulary.size, ← h.attributes_eq, Array.length_toList]

theorem labels_eq : table.labels = v.labels := congrArg labelsOf h.attributes_eq

theorem attribute?_eq (atom : Nat) : table.attribute? atom = v.attribute? atom := by
  rw [attribute?, Vocabulary.attribute?, ← h.attributes_eq, Array.getElem?_toList]

theorem label?_eq (l : Literal) : table.label? l = v.label? l := by
  rw [label?, Vocabulary.label?, h.attribute?_eq]

/-- The index answers what a search through the attributes answers. -/
theorem resolve_eq (label : Text) : table.resolve label = v.resolve label := by
  have hindex : table.index[label]? = v.literal? label := by
    refine Option.ext fun l => ?_
    rw [h.consistent.index_iff, h.label?_eq, Vocabulary.literal?_eq_some_iff]
  cases hliteral : v.literal? label <;> simp [resolve, Vocabulary.resolve, hindex, hliteral]

theorem register (hw : w.attributes = v.attributes ++ [a])
    (hlater : (table.register a).Consistent) : (table.register a).Represents w := by
  refine ⟨hlater, ?_⟩
  rw [hw, ← h.attributes_eq]
  exact Array.toList_push

/-- What the vocabulary takes, the table takes as well, and returns its atom. -/
theorem add_of_ok (hadd : v.add a = .ok w) :
    ∃ later, (add a).run.run table = (.ok v.size, later) ∧ later.Represents w := by
  rcases add_cases h.consistent a with ⟨label, hrefused, -⟩ | ⟨-, hrun, hlater⟩
  · rw [h.labels_eq] at hrefused
    have herror := Vocabulary.add_eq_error_iff.mpr ⟨label, rfl, hrefused⟩
    rw [hadd] at herror
    cases herror
  · rw [h.size_eq] at hrun
    exact ⟨_, hrun, h.register (Vocabulary.add_eq_ok_iff.mp hadd) hlater⟩

/-- What the vocabulary refuses, the table refuses for the same reason, and stays as it was. -/
theorem add_of_error {cause : LabelError} (hadd : v.add a = .error cause) :
    (add a).run.run table = (.error cause, table) := by
  obtain ⟨label, rfl, hrefused⟩ := Vocabulary.add_eq_error_iff.mp hadd
  rw [← h.labels_eq] at hrefused
  rcases add_cases h.consistent a with ⟨other, hother, hrun⟩ | ⟨hnot, -, -⟩
  · rw [hrun, hrefused.unique hother]
  · exact absurd hrefused (hnot label)

theorem step_of_ok (hdeclare : v.declare t = .ok w) :
    ∃ later, table.step t = .ok later ∧ later.Represents w := by
  rw [Vocabulary.declare_eq_bind, bind_eq_ok_iff] at hdeclare
  obtain ⟨a, ha, hadd⟩ := hdeclare
  obtain ⟨later, hrun, hlater⟩ := h.add_of_ok (mapError_eq_ok_iff.mp hadd)
  refine ⟨later, ?_, hlater⟩
  rw [step, run_declare, ha]
  dsimp only
  rw [hrun]
  rfl

theorem step_of_error {fault : Fault} (hdeclare : v.declare t = .error fault) :
    table.step t = .error fault := by
  rw [Vocabulary.declare_eq_bind, bind_eq_error_iff] at hdeclare
  rcases hdeclare with hparse | ⟨a, ha, hadd⟩
  · rw [step, run_declare, hparse]
    rfl
  · obtain ⟨cause, hcause, rfl⟩ := mapError_eq_error_iff.mp hadd
    rw [step, run_declare, ha]
    dsimp only
    rw [h.add_of_error hcause]
    rfl

end Represents

end AttributeTable

namespace Vocabulary

variable {v w : Vocabulary}

/-- Reading into a table does what registering the declarations one after the other does. -/
theorem fold_declare_simulated (input : List UInt8) :
    (∀ cause, File.fold declare empty input = .error cause →
      AttributeTable.read input = .error cause) ∧
    ∀ v, File.fold declare empty input = .ok v →
      ∃ table, AttributeTable.read input = .ok table ∧ table.Represents v :=
  File.fold_simulates (fun _ _ _ _ h hdeclare => h.step_of_ok hdeclare)
    (fun _ _ _ _ h hdeclare => h.step_of_error hdeclare) AttributeTable.represents_empty input

/-- Reading registers the declarations one after the other. -/
theorem read_eq_fold (input : List UInt8) : read input = File.fold declare empty input := by
  obtain ⟨herror, hok⟩ := fold_declare_simulated input
  unfold read
  cases hfold : File.fold declare empty input with
  | error cause =>
    have hcause := herror cause hfold
    split
    · rename_i hread
      rw [hcause] at hread
      rw [Except.error.inj hread]
    · rename_i hread
      rw [hcause] at hread
      cases hread
  | ok v =>
    obtain ⟨table, htable, hrepresents⟩ := hok v hfold
    split
    · rename_i hread
      rw [htable] at hread
      cases hread
    · rename_i hread
      rw [htable] at hread
      cases hread
      exact congrArg Except.ok (ext_attributes hrepresents.attributes_eq)

/-! ## Files of attributes -/

/-- Declarations are registered one after the other. -/
theorem foldlM_declare_eq_ok_iff {lines : List Text} :
    lines.foldlM declare v = .ok w ↔ ∃ declared, w.attributes = v.attributes ++ declared ∧
      List.Forall₂ Attribute.Declares lines declared := by
  induction lines generalizing v with
  | nil =>
    simp only [List.foldlM_nil, List.forall₂_nil_left_iff, exists_eq_right, List.append_nil]
    exact ⟨fun h => (congrArg attributes (Except.ok.inj h)).symm,
      fun h => congrArg Except.ok (ext_attributes h).symm⟩
  | cons line rest ih =>
    simp only [List.foldlM_cons, bind_eq_ok_iff, declare_eq_ok_iff, ih,
      List.forall₂_cons_left_iff]
    constructor
    · rintro ⟨u, ⟨a, ha, hu⟩, declared, hw, hdeclared⟩
      refine ⟨a :: declared, ?_, a, declared, ha, hdeclared, rfl⟩
      rw [hw, hu, List.append_assoc, List.singleton_append]
    · rintro ⟨_, hw, a, declared, ha, hdeclared, rfl⟩
      -- the labels of fewer attributes are distinct too
      have hsub : labelsOf (v.attributes ++ [a]) <+: labelsOf w.attributes := by
        rw [hw, List.append_cons v.attributes a declared, labelsOf_append _ declared]
        exact List.prefix_append _ _
      let u : Vocabulary := ⟨v.attributes ++ [a], w.nodup_labels.sublist hsub.sublist⟩
      refine ⟨u, ⟨a, ha, rfl⟩, declared, ?_, hdeclared⟩
      rw [hw, List.append_assoc, List.singleton_append]

/-- Attributes are read exactly from files of declarations that use no label twice. -/
theorem read_eq_ok_iff {input : List UInt8} :
    read input = .ok v ↔ File.Decodable input ∧
      List.Forall₂ Attribute.Declares (File.contentLines input) v.attributes := by
  rw [read_eq_fold, File.fold_eq_ok_iff, foldlM_declare_eq_ok_iff]
  refine and_congr_right fun _ => ?_
  constructor
  · rintro ⟨declared, hv, hdeclared⟩
    rw [hv]
    exact hdeclared
  · intro h
    exact ⟨v.attributes, rfl, h⟩

end Vocabulary

end PreferenceLogic
