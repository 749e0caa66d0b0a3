import PreferenceLogic.Vocabulary

/-!
# Labels and literals

The labels of a vocabulary are pairwise distinct, so resolving a label and labelling a literal are
inverse to each other.

Results:
* `Vocabulary.literal?_eq_some_iff`, `Vocabulary.resolve_eq_ok_iff`: a label resolves to the literal
  that it labels, and to no other one.
* `Vocabulary.label?_inj`: two literals with the same label are the same.
* `Vocabulary.mem_labels_iff`: the labels are those of the literals.
-/

namespace PreferenceLogic

namespace Vocabulary

variable {v : Vocabulary} {label : Text} {l m : Literal}

theorem exists_of_literalFrom? {attributes : List Attribute} {n : Nat}
    (h : literalFrom? label n attributes = some l) :
    ∃ i a, attributes[i]? = some a ∧ l.atom = n + i ∧ a.label l.positive = label := by
  induction attributes generalizing n with
  | nil => simp [literalFrom?] at h
  | cons a rest ih =>
    rw [literalFrom?] at h
    split at h
    · rename_i htrue
      cases h
      exact ⟨0, a, rfl, rfl, htrue.symm⟩
    · split at h
      · rename_i hfalse
        cases h
        exact ⟨0, a, rfl, rfl, hfalse.symm⟩
      · obtain ⟨i, b, hb, hatom, hlabel⟩ := ih h
        exact ⟨i + 1, b, hb, by omega, hlabel⟩

theorem literalFrom?_label {attributes : List Attribute} (hnodup : (labelsOf attributes).Nodup)
    {n i : Nat} {a : Attribute} (ha : attributes[i]? = some a) (positive : Bool) :
    literalFrom? (a.label positive) n attributes = some ⟨n + i, positive⟩ := by
  induction attributes generalizing n i with
  | nil => simp at ha
  | cons b rest ih =>
    rw [labelsOf_cons, List.nodup_cons, List.nodup_cons, List.mem_cons, not_or] at hnodup
    obtain ⟨⟨hne, htrue⟩, hfalse, hrest⟩ := hnodup
    cases i with
    | zero =>
      cases ha
      cases positive with
      | true => simp [literalFrom?, Attribute.label]
      | false => simp [literalFrom?, Attribute.label, Ne.symm hne]
    | succ i =>
      -- the label occurs in the rest, so it is none of the labels of the first attribute
      have hmem : a.label positive ∈ labelsOf rest :=
        mem_labelsOf.mpr ⟨a, List.mem_of_getElem? ha, positive, rfl⟩
      have h1 : a.label positive ≠ b.trueLabel := fun h => htrue (h ▸ hmem)
      have h2 : a.label positive ≠ b.falseLabel := fun h => hfalse (h ▸ hmem)
      rw [literalFrom?, if_neg h1, if_neg h2, ih hrest ha]
      simp only [Option.some.injEq, Literal.mk.injEq, and_true]
      omega

theorem literal?_eq_some_iff : v.literal? label = some l ↔ v.label? l = some label := by
  constructor
  · intro h
    obtain ⟨i, a, ha, hatom, hlabel⟩ := exists_of_literalFrom? h
    have : v.attribute? l.atom = some a := by rw [hatom, Nat.zero_add]; exact ha
    rw [label?, this, Option.map_some, hlabel]
  · intro h
    obtain ⟨a, ha, rfl⟩ := Option.map_eq_some_iff.mp h
    rw [literal?, literalFrom?_label v.nodup_labels ha, Nat.zero_add]

theorem resolve_eq_ok_iff : v.resolve label = .ok l ↔ v.label? l = some label := by
  rw [← literal?_eq_some_iff, resolve]
  cases v.literal? label <;> simp

theorem label?_inj (hl : v.label? l = some label) (hm : v.label? m = some label) : l = m := by
  rw [← literal?_eq_some_iff] at hl hm
  exact Option.some.inj (hl.symm.trans hm)

theorem atom_lt_of_label? (h : v.label? l = some label) : l.atom < v.size := by
  obtain ⟨a, ha, -⟩ := Option.map_eq_some_iff.mp h
  exact (List.getElem?_eq_some_iff.mp ha).1

theorem mem_labels_iff : label ∈ v.labels ↔ ∃ l, v.label? l = some label := by
  rw [labels, mem_labelsOf]
  constructor
  · rintro ⟨a, ha, positive, rfl⟩
    obtain ⟨i, hi⟩ := List.mem_iff_getElem?.mp ha
    exact ⟨⟨i, positive⟩, by rw [label?, attribute?, hi, Option.map_some]⟩
  · rintro ⟨l, h⟩
    obtain ⟨a, ha, hlabel⟩ := Option.map_eq_some_iff.mp h
    exact ⟨a, List.mem_of_getElem? ha, l.positive, hlabel⟩

end Vocabulary

end PreferenceLogic
