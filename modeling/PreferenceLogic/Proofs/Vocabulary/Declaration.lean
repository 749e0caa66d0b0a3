import PreferenceLogic.Proofs.File.ContentLines
import PreferenceLogic.Proofs.Text.Joined
import PreferenceLogic.Proofs.Vocabulary

/-!
# Declarations of attributes

A declaration is a category, a colon, and two labels with a comma between them. Reading accepts
exactly the declarations. A vocabulary takes an attribute exactly when the labels stay distinct, and
otherwise names the first label that stands in the way.

Definitions:
* `Attribute.Declares`: a text declares an attribute.
* `Attribute.RefusedBy`: an attribute is refused because of a label.

Results:
* `Attribute.parse_eq_ok_iff`, `Attribute.parse_eq_error_iff`: reading accepts the declarations.
* `Vocabulary.add_eq_ok_iff`, `Vocabulary.add_eq_error_iff`: the attributes that are taken, and
  those that are refused.
-/

namespace PreferenceLogic

/-! ## Declarations -/

namespace Attribute

variable {t : Text} {a : Attribute}

/-- A text declares an attribute: the category ends at the first colon, and the only comma after it
divides the two labels. None of the three is blank. -/
def Declares (t : Text) (a : Attribute) : Prop :=
  ∃ category first second : Text,
    t = category ++ ':' :: (first ++ ',' :: second) ∧
      ':' ∉ category ∧ ',' ∉ first ∧ ',' ∉ second ∧
      a = ⟨Text.trim category, Text.trim first, Text.trim second⟩ ∧
      a.category ≠ [] ∧ a.trueLabel ≠ [] ∧ a.falseLabel ≠ []

theorem parse_eq_ok_iff : parse t = .ok a ↔ Declares t a := by
  constructor
  · intro h
    unfold parse at h
    split at h
    · cases h
    · rename_i category labels hcut
      obtain ⟨ht, hcategory⟩ := Text.cutFirst?_singleton_eq_some_iff.mp hcut
      split at h
      · rename_i c rest d first e second hc hlabels
        cases h
        obtain ⟨x, pieces, hpieces, hx, hrest⟩ := List.map_eq_cons_iff.mp hlabels
        obtain ⟨y, _, rfl, hy, hnil⟩ := List.map_eq_cons_iff.mp hrest
        rw [List.map_eq_nil_iff.mp hnil] at hpieces
        obtain ⟨rfl, hfirst, hsecond⟩ := Text.splitOn_eq_pair_iff.mp hpieces
        exact ⟨category, x, y, ht, hcategory, hfirst, hsecond, by rw [hc, hx, hy],
          List.cons_ne_nil _ _, List.cons_ne_nil _ _, List.cons_ne_nil _ _⟩
      · cases h
  · rintro ⟨category, first, second, rfl, hcategory, hfirst, hsecond, rfl, hc, hx, hy⟩
    have hcut : Text.cutFirst? [':'] (category ++ ':' :: (first ++ ',' :: second)) =
        some (category, first ++ ',' :: second) :=
      Text.cutFirst?_singleton_eq_some_iff.mpr ⟨rfl, hcategory⟩
    have hpieces : (first ++ ',' :: second).splitOn ',' = [first, second] :=
      Text.splitOn_eq_pair_iff.mpr ⟨rfl, hfirst, hsecond⟩
    obtain ⟨c, rest, hc⟩ := List.exists_cons_of_ne_nil hc
    obtain ⟨d, first', hx⟩ := List.exists_cons_of_ne_nil hx
    obtain ⟨e, second', hy⟩ := List.exists_cons_of_ne_nil hy
    dsimp only at hc hx hy
    simp only [parse, hcut, hpieces, List.map_cons, List.map_nil, hc, hx, hy]

/-- What a text with a colon and a comma declares. -/
theorem declares_iff_of_parts {category first second : Text} (hcategory : ':' ∉ category)
    (hfirst : ',' ∉ first) (hsecond : ',' ∉ second) :
    Declares (category ++ ':' :: (first ++ ',' :: second)) a ↔
      a = ⟨Text.trim category, Text.trim first, Text.trim second⟩ ∧
        a.category ≠ [] ∧ a.trueLabel ≠ [] ∧ a.falseLabel ≠ [] := by
  constructor
  · rintro ⟨category', first', second', ht, hcategory', hfirst', -, ha⟩
    -- the first colon and the first comma after it are found in one place only
    have hcolon := Text.cutFirst?_singleton_eq_some_iff.mpr ⟨ht, hcategory'⟩
    rw [Text.cutFirst?_singleton_eq_some_iff.mpr ⟨rfl, hcategory⟩] at hcolon
    obtain ⟨rfl, hlabels⟩ := Prod.mk.inj (Option.some.inj hcolon)
    have hcomma := Text.cutFirst?_singleton_eq_some_iff.mpr ⟨hlabels, hfirst'⟩
    rw [Text.cutFirst?_singleton_eq_some_iff.mpr ⟨rfl, hfirst⟩] at hcomma
    obtain ⟨rfl, rfl⟩ := Prod.mk.inj (Option.some.inj hcomma)
    exact ha
  · intro ha
    exact ⟨category, first, second, rfl, hcategory, hfirst, hsecond, ha⟩

/-- A text that declares nothing is the error. -/
theorem parse_eq_error_iff {fault : Fault} :
    parse t = .error fault ↔ fault = .declaration t ∧ ∀ a, ¬ Declares t a := by
  have hfault : ∀ {e}, parse t = .error e → e = .declaration t := by
    intro e h
    unfold parse at h
    split at h
    · exact (Except.error.inj h).symm
    · split at h
      · cases h
      · exact (Except.error.inj h).symm
  simp only [← parse_eq_ok_iff]
  constructor
  · intro h
    exact ⟨hfault h, fun a ha => by rw [h] at ha; cases ha⟩
  · rintro ⟨rfl, hnone⟩
    cases h : parse t with
    | ok a => exact absurd h (hnone a)
    | error e => rw [hfault h]

/-- An attribute is refused because of a label, where some labels are known: because of the first of
its two labels that is known, or the label that both its values have. -/
inductive RefusedBy (known : List Text) (a : Attribute) : Text → Prop where
  | trueLabel (h : a.trueLabel ∈ known) : RefusedBy known a a.trueLabel
  | falseLabel (h : a.trueLabel ∉ known) (h' : a.falseLabel ∈ known) :
    RefusedBy known a a.falseLabel
  | both (h : a.trueLabel ∉ known) (h' : a.falseLabel ∉ known) (heq : a.trueLabel = a.falseLabel) :
    RefusedBy known a a.trueLabel

theorem RefusedBy.unique {known : List Text} {label other : Text} (h : a.RefusedBy known label)
    (h' : a.RefusedBy known other) : label = other := by
  cases h with
  | trueLabel h =>
    cases h' with
    | trueLabel _ => rfl
    | falseLabel hnew _ => exact absurd h hnew
    | both _ _ _ => rfl
  | falseLabel hnew h =>
    cases h' with
    | trueLabel h' => exact absurd h' hnew
    | falseLabel _ _ => rfl
    | both _ hnew' _ => exact absurd h hnew'
  | both hnew hnew' _ =>
    cases h' with
    | trueLabel h' => exact absurd h' hnew
    | falseLabel _ h' => exact absurd h' hnew'
    | both _ _ _ => rfl

/-- An attribute that is not refused has two labels that are new. -/
theorem not_refusedBy_iff {known : List Text} :
    (∀ label, ¬ a.RefusedBy known label) ↔
      a.trueLabel ∉ known ∧ a.falseLabel ∉ known ∧ a.trueLabel ≠ a.falseLabel := by
  constructor
  · intro h
    have htrue : a.trueLabel ∉ known := fun hmem => h _ (.trueLabel hmem)
    have hfalse : a.falseLabel ∉ known := fun hmem => h _ (.falseLabel htrue hmem)
    exact ⟨htrue, hfalse, fun heq => h _ (.both htrue hfalse heq)⟩
  · rintro ⟨htrue, hfalse, hne⟩ label h
    cases h with
    | trueLabel h => exact htrue h
    | falseLabel _ h => exact hfalse h
    | both _ _ heq => exact hne heq

end Attribute

/-! ## Registering attributes -/

namespace Vocabulary

variable {v w : Vocabulary} {a : Attribute} {t : Text}

theorem ext_attributes (h : v.attributes = w.attributes) : v = w := by
  cases v
  cases w
  cases h
  rfl

theorem add_eq_error_iff {cause : LabelError} :
    v.add a = .error cause ↔ ∃ label, cause = .duplicate label ∧ a.RefusedBy v.labels label := by
  constructor
  · intro h
    unfold add at h
    split at h
    · rename_i htrue
      exact ⟨_, (Except.error.inj h).symm, .trueLabel htrue⟩
    · rename_i htrue
      split at h
      · rename_i hfalse
        exact ⟨_, (Except.error.inj h).symm, .falseLabel htrue hfalse⟩
      · rename_i hfalse
        split at h
        · rename_i hsame
          exact ⟨_, (Except.error.inj h).symm, .both htrue hfalse hsame⟩
        · cases h
  · rintro ⟨label, rfl, hrefuses⟩
    cases hrefuses with
    | trueLabel htrue => rw [add, dif_pos htrue]
    | falseLabel htrue hfalse => rw [add, dif_neg htrue, dif_pos hfalse]
    | both htrue hfalse hsame => rw [add, dif_neg htrue, dif_neg hfalse, dif_pos hsame]

/-- An attribute is registered as the last one. -/
theorem add_eq_ok_iff : v.add a = .ok w ↔ w.attributes = v.attributes ++ [a] := by
  constructor
  · intro h
    unfold add at h
    split at h
    · cases h
    · split at h
      · cases h
      · split at h
        · cases h
        · cases h
          rfl
  · intro h
    have hnodup : (v.labels ++ [a.trueLabel, a.falseLabel]).Nodup := by
      have hw := w.nodup_labels
      rw [h, labelsOf_append] at hw
      exact hw
    have hnew : ∀ label ∈ [a.trueLabel, a.falseLabel], label ∉ v.labels := fun label hlabel hmem =>
      (List.nodup_append.mp hnodup).2.2 label hmem label hlabel rfl
    have hsame : a.trueLabel ≠ a.falseLabel := by
      have hpair := (List.nodup_append.mp hnodup).2.1
      simpa using hpair
    rw [add, dif_neg (hnew _ List.mem_cons_self), dif_neg (hnew _ (by simp)), dif_neg hsame]
    exact congrArg Except.ok (ext_attributes h.symm)

theorem declare_eq_bind :
    v.declare t = Attribute.parse t >>= fun a => (v.add a).mapError Fault.label := by
  unfold declare
  cases Attribute.parse t with
  | error fault => rfl
  | ok a =>
    show _ = (v.add a).mapError Fault.label
    dsimp only
    cases v.add a <;> rfl

theorem declare_eq_ok_iff :
    v.declare t = .ok w ↔
      ∃ a, Attribute.Declares t a ∧ w.attributes = v.attributes ++ [a] := by
  simp only [declare_eq_bind, bind_eq_ok_iff, mapError_eq_ok_iff, Attribute.parse_eq_ok_iff,
    add_eq_ok_iff]

theorem declare_eq_error_iff {fault : Fault} :
    v.declare t = .error fault ↔
      (fault = .declaration t ∧ ∀ a, ¬ Attribute.Declares t a) ∨
        ∃ a label, Attribute.Declares t a ∧ fault = .label (.duplicate label) ∧
          a.RefusedBy v.labels label := by
  simp only [declare_eq_bind, bind_eq_error_iff, mapError_eq_error_iff,
    Attribute.parse_eq_error_iff, Attribute.parse_eq_ok_iff, add_eq_error_iff]
  refine or_congr_right (exists_congr fun a => ?_)
  constructor
  · rintro ⟨ha, _, ⟨label, rfl, hrefuses⟩, rfl⟩
    exact ⟨label, ha, rfl, hrefuses⟩
  · rintro ⟨label, ha, rfl, hrefuses⟩
    exact ⟨ha, _, ⟨label, rfl, hrefuses⟩, rfl⟩

end Vocabulary

end PreferenceLogic
