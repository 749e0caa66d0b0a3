import Mathlib.Data.Nat.Init
import PreferenceLogic.Proofs.Object.Space

/-!
# Objects as sets of labels

An object is told by its labels alone, in whatever order they are listed. The sets of labels that
belong to an object are those that have exactly one label of each attribute, and this does not
depend on how attributes are numbered or which label is the positive one.

Definitions:
* `Object.SameLabels`: two objects have the same labels.
* `Vocabulary.Chooses`: a set of labels has exactly one label of each attribute.

Results:
* `Vocabulary.exists_object`: every valuation of the attributes is that of an object.
* `Vocabulary.eq_of_sameLabels`: objects with the same labels are the same.
* `Vocabulary.chooses_labels`, `Vocabulary.exists_of_chooses`: the sets of labels that belong to an
  object.
-/

namespace PreferenceLogic

/-- Two objects, perhaps of different vocabularies, have the same labels. -/
def Object.SameLabels (x y : Object) : Prop := ∀ label, label ∈ x.labels ↔ label ∈ y.labels

theorem Object.SameLabels.symm {x y : Object} (h : x.SameLabels y) : y.SameLabels x :=
  fun label => (h label).symm

namespace Vocabulary

variable {v : Vocabulary} {x y : Object}

/-! ## Valuations -/

theorem valuation_object {id atom : Nat} (h : atom < v.size) :
    (v.object id).valuation atom = id.testBit (v.size - 1 - atom) := by
  have hatom : atom < (bitsOf v.size id).length := by rwa [length_bitsOf]
  show (bitsOf v.size id).getD atom false = _
  rw [List.getD_eq_getElem _ _ hatom]
  simp [bitsOf]

/-- The number of an object has the values of the attributes as its binary digits. -/
theorem exists_object (v : Vocabulary) (w : Valuation) :
    ∃ x ∈ v.objects, ∀ atom < v.size, x.valuation atom = w atom := by
  let digit (i : Fin v.size) : Bool := w (v.size - 1 - i)
  refine ⟨v.object (Nat.ofBits digit), ?_, fun atom hatom => ?_⟩
  · exact List.mem_map_of_mem (List.mem_range.mpr (Nat.ofBits_lt_two_pow digit))
  · have hposition : v.size - 1 - (v.size - 1 - atom) = atom := by omega
    rw [valuation_object hatom, Nat.testBit_ofBits_lt digit _ (by omega)]
    exact congrArg w hposition

theorem eq_of_valuation_eq (hx : x ∈ v.objects) (hy : y ∈ v.objects)
    (h : ∀ atom < v.size, x.valuation atom = y.valuation atom) : x = y := by
  obtain ⟨hxid, hxeq⟩ := mem_objects_iff.mp hx
  obtain ⟨hyid, hyeq⟩ := mem_objects_iff.mp hy
  refine eq_of_id_eq hx hy (Nat.eq_of_testBit_eq fun i => ?_)
  rcases Nat.lt_or_ge i v.size with hi | hi
  · have hposition : v.size - 1 - (v.size - 1 - i) = i := by omega
    have hvalue := h (v.size - 1 - i) (by omega)
    rw [hxeq, hyeq, valuation_object (by omega), valuation_object (by omega), hposition] at hvalue
    exact hvalue
  · have hpow : Nat.pow 2 v.size ≤ Nat.pow 2 i := Nat.pow_le_pow_right (by omega) hi
    rw [Nat.testBit_lt_two_pow (Nat.lt_of_lt_of_le hxid hpow),
      Nat.testBit_lt_two_pow (Nat.lt_of_lt_of_le hyid hpow)]

/-! ## Labels -/

theorem trueLabel_mem_iff (hx : x ∈ v.objects) {atom : Nat} {a : Attribute}
    (ha : v.attribute? atom = some a) : a.trueLabel ∈ x.labels ↔ x.valuation atom = true := by
  have hlabel : v.label? ⟨atom, true⟩ = some a.trueLabel := by rw [label?, ha]; rfl
  rw [mem_labels_of_resolve hx (resolve_eq_ok_iff.mpr hlabel)]
  simp [Literal.eval]

theorem falseLabel_mem_iff (hx : x ∈ v.objects) {atom : Nat} {a : Attribute}
    (ha : v.attribute? atom = some a) : a.falseLabel ∈ x.labels ↔ x.valuation atom = false := by
  have hlabel : v.label? ⟨atom, false⟩ = some a.falseLabel := by rw [label?, ha]; rfl
  rw [mem_labels_of_resolve hx (resolve_eq_ok_iff.mpr hlabel)]
  simp [Literal.eval]

theorem eq_of_sameLabels (hx : x ∈ v.objects) (hy : y ∈ v.objects) (h : x.SameLabels y) :
    x = y := by
  refine eq_of_valuation_eq hx hy fun atom hatom => ?_
  have ha : v.attribute? atom = some v.attributes[atom] := List.getElem?_eq_getElem hatom
  rw [Bool.eq_iff_iff, ← trueLabel_mem_iff hx ha, ← trueLabel_mem_iff hy ha]
  exact h _

/-- A set of labels has exactly one label of each attribute, and nothing else. -/
structure Chooses (v : Vocabulary) (chosen : Text → Prop) : Prop where
  known : ∀ label, chosen label → label ∈ v.labels
  one : ∀ a ∈ v.attributes, (chosen a.trueLabel ↔ ¬ chosen a.falseLabel)

theorem chooses_labels (hx : x ∈ v.objects) : v.Chooses (· ∈ x.labels) where
  known label hlabel := by
    obtain ⟨l, hl, -⟩ := (label_mem_iff hx).mp hlabel
    exact mem_labels_iff.mpr ⟨l, hl⟩
  one a ha := by
    obtain ⟨atom, hatom⟩ := List.mem_iff_getElem?.mp ha
    rw [trueLabel_mem_iff hx hatom, falseLabel_mem_iff hx hatom, Bool.not_eq_false]

theorem exists_of_chooses {chosen : Text → Prop} (h : v.Chooses chosen) :
    ∃ x ∈ v.objects, ∀ label, label ∈ x.labels ↔ chosen label := by
  classical
  obtain ⟨x, hx, hvaluation⟩ := v.exists_object fun atom =>
    decide (∃ a, v.attribute? atom = some a ∧ chosen a.trueLabel)
  have hvalue : ∀ atom a, v.attribute? atom = some a →
      (x.valuation atom = true ↔ chosen a.trueLabel) := by
    intro atom a ha
    rw [hvaluation atom (List.getElem?_eq_some_iff.mp ha).1, decide_eq_true_iff, ha]
    simp
  have hlabels : ∀ a ∈ v.attributes, ∀ positive,
      (a.label positive ∈ x.labels ↔ chosen (a.label positive)) := by
    intro a ha positive
    obtain ⟨atom, hatom⟩ := List.mem_iff_getElem?.mp ha
    cases positive with
    | true => exact (trueLabel_mem_iff hx hatom).trans (hvalue atom a hatom)
    | false =>
      show a.falseLabel ∈ x.labels ↔ chosen a.falseLabel
      rw [falseLabel_mem_iff hx hatom, ← Bool.not_eq_true, hvalue atom a hatom, h.one a ha,
        not_not]
  refine ⟨x, hx, fun label => ⟨fun hmem => ?_, fun hchosen => ?_⟩⟩
  · obtain ⟨a, ha, positive, rfl⟩ := mem_labelsOf.mp ((chooses_labels hx).known label hmem)
    exact (hlabels a ha positive).mp hmem
  · obtain ⟨a, ha, positive, rfl⟩ := mem_labelsOf.mp (h.known label hchosen)
    exact (hlabels a ha positive).mpr hchosen

end Vocabulary

end PreferenceLogic
