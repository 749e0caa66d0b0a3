import PreferenceLogic.Proofs.File.Written
import PreferenceLogic.Proofs.Vocabulary.Table

/-!
# Declarations that are printed

An attribute that is declared in a file has a category without a colon and labels without a comma,
all of them trimmed. So its printed declaration is cut where it was put together. It starts as the
line that declared the attribute does, so it is no comment either, and a file of attributes that are
printed is read as the attributes that were printed.

Definitions:
* `Attribute.Declarable`: what an attribute is like that can be declared.

Results:
* `Attribute.declarable_iff`: these attributes are those that some text declares.
* `Attribute.Declares.isContentLine`: a declaration is printed as a content line.
* `Vocabulary.declarations_read_back`: attributes that were read are printed and read again.
-/

namespace PreferenceLogic

/-! ## Attributes that can be declared -/

namespace Attribute

variable {a : Attribute} {t : Text}

/-- An attribute that can be declared: the category and the labels are trimmed, none of them is
empty, and none of them has the character that ends it in a declaration. -/
structure Declarable (a : Attribute) : Prop where
  category_ne_nil : a.category ≠ []
  trim_category : Text.trim a.category = a.category
  colon_not_mem : ':' ∉ a.category
  label_ne_nil : ∀ positive, a.label positive ≠ []
  trim_label : ∀ positive, Text.trim (a.label positive) = a.label positive
  comma_not_mem : ∀ positive, ',' ∉ a.label positive

theorem Declares.declarable (h : Declares t a) : Declarable a := by
  obtain ⟨category, first, second, -, hcolon, hfirst, hsecond, rfl, hne, htrue, hfalse⟩ := h
  have hsub : ∀ {c s}, c ∉ s → c ∉ Text.trim s := fun hc hmem =>
    hc ((Text.trim_sublist _).subset hmem)
  exact {
    category_ne_nil := hne
    trim_category := Text.trim_trim category
    colon_not_mem := hsub hcolon
    label_ne_nil := Bool.rec hfalse htrue
    trim_label := Bool.rec (Text.trim_trim second) (Text.trim_trim first)
    comma_not_mem := Bool.rec (hsub hsecond) (hsub hfirst) }

/-- A printed declaration is cut at the colon and at the comma that were printed. -/
theorem Declarable.declares (h : Declarable a) : Declares a.declaration a := by
  have hspace : Text.Blank [' '] := List.forall_mem_singleton.mpr Text.isBlank_space
  have htrim : ∀ positive, Text.trim ([' '] ++ a.label positive) = a.label positive :=
    fun positive => (hspace.append_trim _).trans (h.trim_label positive)
  have hcomma : ∀ positive, ',' ∉ [' '] ++ a.label positive := fun positive => by
    simpa using h.comma_not_mem positive
  have heq : a.declaration =
      a.category ++ ':' :: (([' '] ++ a.label true) ++ ',' :: ([' '] ++ a.label false)) := by
    simp [declaration, label]
  rw [heq, declares_iff_of_parts h.colon_not_mem (hcomma true) (hcomma false), h.trim_category,
    htrim, htrim]
  exact ⟨rfl, h.category_ne_nil, h.label_ne_nil true, h.label_ne_nil false⟩

theorem declarable_iff : Declarable a ↔ ∃ t, Declares t a :=
  ⟨fun h => ⟨a.declaration, h.declares⟩, fun ⟨_, h⟩ => h.declarable⟩

/-! ## Printed lines -/

theorem Declarable.trim_declaration (h : Declarable a) :
    Text.trim a.declaration = a.declaration := by
  have hcategory : ¬ Text.Blank a.category :=
    Text.not_blank_of_trim_eq h.category_ne_nil h.trim_category
  have hfalse : Text.trim a.falseLabel = a.falseLabel := h.trim_label false
  have hlast : ¬ Text.Blank a.falseLabel := Text.not_blank_of_trim_eq (h.label_ne_nil false) hfalse
  have heq : a.declaration =
      a.category ++ (": ".toList ++ a.trueLabel ++ ", ".toList ++ a.falseLabel) := by
    simp [declaration]
  rw [heq, Text.trim_append hcategory (Text.not_blank_append hlast), Text.trimEnd_append hlast,
    Text.trimStart_of_trim_eq h.trim_category, Text.trimEnd_of_trim_eq hfalse]

/-- A trimmed line that declares an attribute starts with its category. -/
theorem Declares.category_isPrefix (h : Declares t a) (ht : Text.trim t = t) :
    a.category <+: t := by
  obtain ⟨category, first, second, rfl, -, -, -, rfl, hne, -, -⟩ := h
  -- the category is not blank, so the line starts where the category does
  have hblank : ¬ Text.Blank category := fun hblank => hne (Text.trim_eq_nil_iff.mpr hblank)
  have hstart : Text.trimStart category = category := by
    have hline := Text.trimStart_trim (category ++ ':' :: (first ++ ',' :: second))
    rw [ht, Text.trimStart_append hblank] at hline
    exact List.append_cancel_right hline
  show Text.trim category <+: _
  rw [Text.trim, hstart]
  exact (Text.trimEnd_prefix category).trans (List.prefix_append category _)

/-- A content line that declares an attribute is printed as a content line. -/
theorem Declares.isContentLine (h : Declares t a) (ht : File.IsContentLine t) :
    File.IsContentLine a.declaration := by
  have hne := h.declarable.category_ne_nil
  obtain ⟨rest, hrest⟩ := h.category_isPrefix ht.trim_eq
  have hsilent : File.isSilent a.declaration = File.isSilent t := by
    obtain ⟨c, category, hcategory⟩ := List.exists_cons_of_ne_nil hne
    simp only [File.isSilent, declaration, ← hrest, hcategory, List.cons_append, List.head?_cons,
      List.isEmpty_cons]
  refine ⟨h.declarable.trim_declaration, by rw [hsilent, ht.not_silent], fun hmem => ?_⟩
  obtain ⟨category, first, second, rfl, -, -, -, rfl, -, -, -⟩ := h
  have hnewline := ht.newline_not_mem
  simp only [List.mem_append, List.mem_cons, not_or] at hnewline
  have hsub : ∀ {s}, '\n' ∈ Text.trim s → '\n' ∈ s := fun hs => (Text.trim_sublist _).subset hs
  simp only [declaration, List.mem_append] at hmem
  rcases hmem with (((hmem | hmem) | hmem) | hmem) | hmem
  · exact hnewline.1 (hsub hmem)
  · exact absurd hmem (by decide)
  · exact hnewline.2.2.1 (hsub hmem)
  · exact absurd hmem (by decide)
  · exact hnewline.2.2.2.2 (hsub hmem)

end Attribute

/-! ## Printed files -/

namespace Vocabulary

variable {v : Vocabulary} {input : List UInt8} {t : Text}

/-- What is printed of attributes that were read is a file that declares them. -/
theorem read_of_writes (h : read input = .ok v)
    (ht : Text.Writes t (v.attributes.map Attribute.declaration)) :
    read (Utf8.encode t) = .ok v := by
  obtain ⟨-, hdeclared⟩ := read_eq_ok_iff.mp h
  have hlines : ∀ line ∈ v.attributes.map Attribute.declaration, File.IsContentLine line := by
    refine List.forall_mem_map.mpr fun a ha => ?_
    obtain ⟨line, hline, hdeclares⟩ := exists_mem_of_forall₂ hdeclared ha
    exact hdeclares.isContentLine (File.isContentLine_of_mem hline)
  refine read_eq_ok_iff.mpr ⟨File.decodable_encode t, ?_⟩
  rw [File.contentLines_of_writes ht hlines, List.forall₂_map_left_iff, List.forall₂_same]
  intro a ha
  obtain ⟨line, -, hdeclares⟩ := exists_mem_of_forall₂ hdeclared ha
  exact hdeclares.declarable.declares

/-- **Printed declarations.** The attributes that are read from a file can be printed, one to a line
and in their order, and read again. What is read are the same attributes in the same order, and
every label resolves to the same literal, or to none, as before. -/
theorem declarations_read_back (h : read input = .ok v)
    (ht : Text.Writes t (v.attributes.map Attribute.declaration)) :
    ∃ w, read (Utf8.encode t) = .ok w ∧ w.attributes = v.attributes ∧
      ∀ label, w.resolve label = v.resolve label :=
  ⟨v, read_of_writes h ht, rfl, fun _ => rfl⟩

/-- Two declarations with a comment between them. A label has a colon, the other one the comment
mark, and there are blanks of all kinds; a category has a comma and a carriage return. -/
def oddFile : Text :=
  "Si#ze\u00a0: x:y ,\t#z\u3000\r\n# comment\nCol\ror, etc:red,light blue".toList

/-- The blanks around the names and the comment are not printed, all else is. -/
theorem declarations_read_back_oddFile :
    ∃ v, read (Utf8.encode oddFile) = .ok v ∧
      Text.Writes "Si#ze: x:y, #z\nCol\ror, etc: red, light blue\n".toList
        (v.attributes.map Attribute.declaration) ∧
      ∃ w, read (Utf8.encode "Si#ze: x:y, #z\nCol\ror, etc: red, light blue\n".toList) = .ok w ∧
        w.attributes = v.attributes ∧ ∀ label, w.resolve label = v.resolve label := by
  obtain ⟨v, hread, hattributes⟩ : ∃ v, read (Utf8.encode oddFile) = .ok v ∧ v.attributes =
      [⟨"Si#ze".toList, "x:y".toList, "#z".toList⟩,
        ⟨"Col\ror, etc".toList, "red".toList, "light blue".toList⟩] :=
    map_eq_ok_iff.mp (by decide +kernel)
  have hwrites : Text.Writes "Si#ze: x:y, #z\nCol\ror, etc: red, light blue\n".toList
      (v.attributes.map Attribute.declaration) := by
    rw [hattributes]
    exact .inl (by decide)
  exact ⟨v, hread, hwrites, declarations_read_back hread hwrites⟩

end Vocabulary

end PreferenceLogic
