import PreferenceLogic.Proofs.Object.Labels
import PreferenceLogic.Proofs.Vocabulary.Table

/-!
# Vocabularies that differ in their numbering

The order in which attributes are declared numbers the atoms, and the order of the labels in a
declaration says which literal is positive. Two vocabularies that differ in nothing else have the
same labels, and for each object of the one there is an object of the other with the same labels.

Definitions:
* `Attribute.Alike`, `Vocabulary.Alike`: attributes with the same labels, and vocabularies with such
  attributes.
* `Attribute.SameDeclaration`, `File.SameDeclarations`: texts and files that declare such
  attributes.

Results:
* `Vocabulary.Alike.exists_object`: the objects of such vocabularies are paired by their labels.
* `File.SameDeclarations.exists_read`: such files are read as such vocabularies.
-/

namespace PreferenceLogic

/-! ## Attributes -/

namespace Attribute

/-- The attribute with its two labels exchanged. -/
def swap (a : Attribute) : Attribute := ⟨a.category, a.falseLabel, a.trueLabel⟩

/-- Two attributes are the same, perhaps with their labels exchanged. -/
def Alike (a b : Attribute) : Prop := b = a ∨ b = a.swap

theorem Alike.symm {a b : Attribute} (h : a.Alike b) : b.Alike a := by
  rcases h with rfl | rfl
  · exact .inl rfl
  · exact .inr rfl

theorem Alike.labels_perm {a b : Attribute} (h : a.Alike b) : a.labels.Perm b.labels := by
  rcases h with rfl | rfl
  · exact .refl _
  · exact .swap _ _ _

/-- Two texts declare the same attributes, perhaps with the labels exchanged. -/
def SameDeclaration (s t : Text) : Prop :=
  (∀ a, Declares s a → ∃ b, Declares t b ∧ a.Alike b) ∧
    ∀ b, Declares t b → ∃ a, Declares s a ∧ a.Alike b

theorem SameDeclaration.refl (t : Text) : SameDeclaration t t :=
  ⟨fun a ha => ⟨a, ha, .inl rfl⟩, fun a ha => ⟨a, ha, .inl rfl⟩⟩

theorem SameDeclaration.symm {s t : Text} (h : SameDeclaration s t) : SameDeclaration t s := by
  constructor
  · intro b hb
    obtain ⟨a, ha, halike⟩ := h.2 b hb
    exact ⟨a, ha, halike.symm⟩
  · intro a ha
    obtain ⟨b, hb, halike⟩ := h.1 a ha
    exact ⟨b, hb, halike.symm⟩

/-- The texts of the two labels may be exchanged. -/
theorem sameDeclaration_exchanged {category first second : Text} (hcategory : ':' ∉ category)
    (hfirst : ',' ∉ first) (hsecond : ',' ∉ second) :
    SameDeclaration (category ++ ':' :: (first ++ ',' :: second))
      (category ++ ':' :: (second ++ ',' :: first)) := by
  constructor
  · intro a ha
    rw [declares_iff_of_parts hcategory hfirst hsecond] at ha
    obtain ⟨rfl, hc, hx, hy⟩ := ha
    exact ⟨_, (declares_iff_of_parts hcategory hsecond hfirst).mpr ⟨rfl, hc, hy, hx⟩, .inr rfl⟩
  · intro b hb
    rw [declares_iff_of_parts hcategory hsecond hfirst] at hb
    obtain ⟨rfl, hc, hx, hy⟩ := hb
    exact ⟨_, (declares_iff_of_parts hcategory hfirst hsecond).mpr ⟨rfl, hc, hy, hx⟩, .inr rfl⟩

end Attribute

/-! ## Vocabularies -/

/-- Two vocabularies have the same attributes, in whatever order and perhaps with the labels of some
of them exchanged. -/
def Vocabulary.Alike (v w : Vocabulary) : Prop :=
  ∃ attributes, v.attributes.Perm attributes ∧
    List.Forall₂ Attribute.Alike attributes w.attributes

theorem labelsOf_perm_of_alike {before after : List Attribute}
    (h : List.Forall₂ Attribute.Alike before after) : (labelsOf before).Perm (labelsOf after) := by
  induction h with
  | nil => exact .refl _
  | cons hab _ ih => exact hab.labels_perm.append ih

namespace Vocabulary.Alike

variable {v w : Vocabulary} (h : v.Alike w)

include h

theorem size_eq : v.size = w.size := by
  obtain ⟨attributes, hperm, halike⟩ := h
  exact hperm.length_eq.trans halike.length_eq

theorem labels_perm : v.labels.Perm w.labels := by
  obtain ⟨attributes, hperm, halike⟩ := h
  exact (hperm.flatMap_right Attribute.labels).trans (labelsOf_perm_of_alike halike)

/-- Which sets of labels choose one label of each attribute does not depend on the numbering. -/
theorem chooses_iff {chosen : Text → Prop} : v.Chooses chosen ↔ w.Chooses chosen := by
  have hknown : (∀ label, chosen label → label ∈ v.labels) ↔
      ∀ label, chosen label → label ∈ w.labels := by
    simp only [h.labels_perm.mem_iff]
  have hone : (∀ a ∈ v.attributes, (chosen a.trueLabel ↔ ¬ chosen a.falseLabel)) ↔
      ∀ a ∈ w.attributes, (chosen a.trueLabel ↔ ¬ chosen a.falseLabel) := by
    obtain ⟨attributes, hperm, halike⟩ := h
    simp only [hperm.mem_iff]
    refine forall_mem_iff_of_forall₂ (halike.imp fun a b hab => ?_)
    rcases hab with rfl | rfl
    · rfl
    · show (chosen a.trueLabel ↔ ¬ chosen a.falseLabel) ↔
        (chosen a.falseLabel ↔ ¬ chosen a.trueLabel)
      tauto
  exact ⟨fun hv => ⟨hknown.mp hv.known, hone.mp hv.one⟩,
    fun hw => ⟨hknown.mpr hw.known, hone.mpr hw.one⟩⟩

/-- Each object has a counterpart with the same labels. -/
theorem exists_object {x : Object} (hx : x ∈ v.objects) : ∃ y ∈ w.objects, x.SameLabels y := by
  obtain ⟨y, hy, hlabels⟩ := exists_of_chooses (h.chooses_iff.mp (chooses_labels hx))
  exact ⟨y, hy, fun label => (hlabels label).symm⟩

theorem symm : w.Alike v := by
  obtain ⟨attributes, hperm, halike⟩ := h
  obtain ⟨others, hothers, hperm'⟩ := List.perm_comp_forall₂ hperm halike
  exact ⟨others, hperm'.symm, hothers.flip.imp fun _ _ => Attribute.Alike.symm⟩

end Vocabulary.Alike

/-! ## Files -/

/-- Two files are UTF-8 and their content lines declare the same attributes, in whatever order and
perhaps with the labels of some of them exchanged. -/
structure File.SameDeclarations (input input' : List UInt8) : Prop where
  decodable : Decodable input
  decodable' : Decodable input'
  lines : ∃ lines, (contentLines input).Perm lines ∧
    List.Forall₂ Attribute.SameDeclaration lines (contentLines input')

namespace File.SameDeclarations

variable {input input' : List UInt8} (h : SameDeclarations input input')

include h

theorem symm : SameDeclarations input' input := by
  obtain ⟨lines, hperm, hsame⟩ := h.lines
  obtain ⟨others, hothers, hperm'⟩ := List.perm_comp_forall₂ hperm hsame
  exact ⟨h.decodable', h.decodable, others, hperm'.symm,
    hothers.flip.imp fun _ _ => Attribute.SameDeclaration.symm⟩

/-- If the one file is read then so is the other. -/
theorem exists_read {v : Vocabulary} (hread : Vocabulary.read input = .ok v) :
    ∃ w, Vocabulary.read input' = .ok w ∧ v.Alike w := by
  obtain ⟨-, hdeclared⟩ := Vocabulary.read_eq_ok_iff.mp hread
  obtain ⟨lines, hperm, hsame⟩ := h.lines
  obtain ⟨attributes, hlines, hattributes⟩ := List.perm_comp_forall₂ hperm.symm hdeclared
  obtain ⟨attributes', hdeclared', halike⟩ :=
    exists_forall₂_of_forall₂ (fun _ _ a hsame ha => hsame.1 a ha) hsame hlines
  -- exchanging labels and reordering attributes keeps the labels distinct
  have hlabels : (labelsOf v.attributes).Perm (labelsOf attributes') :=
    (hattributes.symm.flatMap_right Attribute.labels).trans (labelsOf_perm_of_alike halike)
  refine ⟨⟨attributes', hlabels.nodup_iff.mp v.nodup_labels⟩, ?_, attributes, hattributes.symm,
    halike⟩
  exact Vocabulary.read_eq_ok_iff.mpr ⟨h.decodable', hdeclared'⟩

end File.SameDeclarations

end PreferenceLogic
