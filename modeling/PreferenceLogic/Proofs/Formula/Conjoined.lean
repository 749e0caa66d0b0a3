import PreferenceLogic.Proofs.File.Layout
import PreferenceLogic.Proofs.Formula.Language
import PreferenceLogic.Proofs.Text.Divided

/-!
# Constraints as one formula

A file of constraints means the conjunction of its lines. Where no label looks like the conjunction,
the lines can also be joined by it and read as a single formula: both are read or neither is, and
the clauses are the same. A line that starts or ends with the conjunction could be cut in another
place when it is joined, but neither the line nor what is joined is a formula then.

Definitions:
* `Formula.ReadsAs`: the pieces of a text are read as some clauses.

Results:
* `Formula.ReadsAs.divides`: the conjunction stands between other words only.
* `Formula.readsAs_append_iff`: what is joined of two texts is read as the two are.
* `Formula.readsAs_intercalate_iff`: what is joined of several texts is read as they are.
* `Formula.read_iff_parse_joined`: a file of constraints is read as its lines joined.
-/

namespace PreferenceLogic.Formula

/-- The pieces of a text between conjunctions are read as some clauses. -/
def ReadsAs (v : Vocabulary) (t : Text) (clauses : List Clause) : Prop :=
  List.Forall₂ (fun part c => parseClause v part = .ok c) (Text.split conjunction t) clauses

variable {v : Vocabulary} {s t : Text} {clauses : List Clause}

/-! ## Joined texts -/

theorem isWord_conjunction : Text.IsWord ['A', 'N', 'D'] := by decide

section

variable (hand : ['A', 'N', 'D'] ∉ v.labels)

include hand

/-- Where a text can be read, the conjunction stands between other words only. -/
theorem ReadsAs.divides (h : ReadsAs v t clauses) :
    Text.Divides ['A', 'N', 'D'] (Text.words t) := by
  rw [← Text.intercalate_split (t := t) conjunction_ne_nil]
  refine Text.divides_intercalate isWord_conjunction (Text.split_ne_nil conjunction_ne_nil)
    fun piece hpiece => ?_
  obtain ⟨c, -, hc⟩ := exists_mem_of_forall₂ (List.Forall₂.flip h) hpiece
  refine ⟨words_ne_nil_of_parseClause hc, fun hmem => ?_⟩
  rcases mem_words_of_parseClause hc hmem with hlabel | hmarker | heq
  · exact hand hlabel
  · rw [← isNegation_iff] at hmarker
    revert hmarker
    decide
  · cases heq

/-- A text can be read where it is joined to another one only if it does not end with the
conjunction, and then what is joined is cut as the two texts are. -/
theorem readsAs_append_iff :
    ReadsAs v (s ++ (conjunction ++ t)) clauses ↔
      ∃ before after, ReadsAs v s before ∧ ReadsAs v t after ∧ clauses = before ++ after := by
  have hsplit : (Text.words s).getLast? ≠ some ['A', 'N', 'D'] →
      Text.split conjunction (s ++ (conjunction ++ t)) =
        Text.split conjunction s ++ Text.split conjunction t :=
    fun hlast => Text.split_append_spaced isWord_conjunction hlast t
  constructor
  · intro h
    have hdivides := h.divides hand
    rw [show conjunction = Text.spaced ['A', 'N', 'D'] from rfl,
      Text.words_append_spaced isWord_conjunction] at hdivides
    rw [ReadsAs, hsplit hdivides.getLast?_ne_of_append] at h
    exact forall₂_append_left_iff.mp h
  · rintro ⟨before, after, hs, ht, rfl⟩
    rw [ReadsAs, hsplit (hs.divides hand).getLast?_ne]
    exact forall₂_append_left_iff.mpr ⟨before, after, hs, ht, rfl⟩

theorem readsAs_intercalate_iff {lines : List Text} (hne : lines ≠ []) :
    ReadsAs v (conjunction.intercalate lines) clauses ↔
      ∃ groups, List.Forall₂ (ReadsAs v) lines groups ∧ clauses = groups.flatten := by
  induction lines generalizing clauses with
  | nil => exact absurd rfl hne
  | cons line lines ih =>
    simp only [List.forall₂_cons_left_iff]
    cases lines with
    | nil =>
      simp only [List.intercalate_singleton, List.forall₂_nil_left_iff]
      constructor
      · intro h
        exact ⟨[clauses], ⟨clauses, [], h, rfl, rfl⟩, (List.flatten_singleton).symm⟩
      · rintro ⟨_, ⟨group, _, h, rfl, rfl⟩, rfl⟩
        rwa [List.flatten_singleton]
    | cons next lines =>
      rw [List.intercalate_cons_cons, List.append_assoc, readsAs_append_iff hand]
      simp only [ih (List.cons_ne_nil next lines)]
      constructor
      · rintro ⟨group, _, hline, ⟨groups, hgroups, rfl⟩, rfl⟩
        exact ⟨group :: groups, ⟨group, groups, hline, hgroups, rfl⟩, rfl⟩
      · rintro ⟨_, ⟨group, groups, hline, hgroups, rfl⟩, rfl⟩
        exact ⟨group, groups.flatten, hline, ⟨groups, hgroups, rfl⟩, rfl⟩

end

/-! ## Files of constraints -/

/-- A trimmed text is read as a formula exactly when its pieces are read as clauses. -/
theorem parse_eq_ok_iff_readsAs (ht : Text.trim t = t) {f : Formula} :
    parse v t = .ok f ↔ ReadsAs v t f.clauses ∧ f = ofClauses v.size f.clauses := by
  rw [parse_eq_ok_iff, ht]
  constructor
  · rintro ⟨clauses, hclauses, rfl⟩
    exact ⟨hclauses, rfl⟩
  · rintro ⟨hclauses, heq⟩
    exact ⟨f.clauses, hclauses, heq⟩

/-- Constraints are the clauses of the content lines. -/
theorem read_eq_ok_iff_readsAs {input : List UInt8} (hinput : File.Decodable input) {f : Formula} :
    Formula.read v input = .ok f ↔
      ∃ groups, List.Forall₂ (ReadsAs v) (File.contentLines input) groups ∧
        f = ofClauses v.size groups.flatten := by
  have hline : ∀ line ∈ File.contentLines input, ∀ g : Formula,
      parse v line = .ok g ↔ ReadsAs v line g.clauses ∧ g = ofClauses v.size g.clauses :=
    fun line hline g => parse_eq_ok_iff_readsAs (File.trim_of_mem_contentLines hline)
  rw [read_eq_ok_iff, and_iff_right hinput]
  constructor
  · rintro ⟨formulas, hformulas, rfl⟩
    refine ⟨formulas.map Formula.clauses, ?_, by rw [List.flatMap_def]⟩
    rw [List.forall₂_map_right_iff]
    exact forall₂_imp_of_mem hformulas fun line hmem g hg => ((hline line hmem g).mp hg).1
  · rintro ⟨groups, hgroups, rfl⟩
    refine ⟨groups.map (ofClauses v.size), ?_, ?_⟩
    · rw [List.forall₂_map_right_iff]
      exact forall₂_imp_of_mem hgroups fun line hmem cs hcs => (hline line hmem _).mpr ⟨hcs, rfl⟩
    · rw [List.flatMap_map]
      simp

/-- **Constraints as one formula.** Where no label is the word `AND`, a file whose lines are all
UTF-8 and that has content lines is read as a formula exactly when its content lines, joined by the
conjunction, are read as this formula: with the same clauses in the same order, over the same number
of atoms. A file without content lines is read as no clauses over all attributes. -/
theorem read_iff_parse_joined (hand : ['A', 'N', 'D'] ∉ v.labels) {input : List UInt8}
    (hinput : File.Decodable input) :
    (File.contentLines input ≠ [] → ∀ f, Formula.read v input = .ok f ↔
      parse v (conjunction.intercalate (File.contentLines input)) = .ok f) ∧
    (File.contentLines input = [] →
      ∃ f, Formula.read v input = .ok f ∧ f.clauses = [] ∧ f.atoms = v.size) := by
  constructor
  · intro hne f
    have htrim : Text.trim (conjunction.intercalate (File.contentLines input)) =
        conjunction.intercalate (File.contentLines input) :=
      Text.trim_intercalate _ fun line hline =>
        ⟨File.ne_nil_of_mem_contentLines hline, File.trim_of_mem_contentLines hline⟩
    rw [read_eq_ok_iff_readsAs hinput, parse_eq_ok_iff_readsAs htrim,
      readsAs_intercalate_iff hand hne]
    constructor
    · rintro ⟨groups, hgroups, rfl⟩
      exact ⟨⟨groups, hgroups, rfl⟩, rfl⟩
    · rintro ⟨⟨groups, hgroups, hclauses⟩, heq⟩
      exact ⟨groups, hgroups, hclauses ▸ heq⟩
  · intro hnil
    refine ⟨ofClauses v.size [], ?_, rfl, Nat.max_zero v.size⟩
    rw [read_eq_ok_iff_readsAs hinput, hnil]
    exact ⟨[], .nil, rfl⟩

/-- Two constraints with a comment between them are read as their conjunction. A line that ends with
the conjunction is no formula, and neither is what it is joined to. A file of comments is read as no
clauses. -/
theorem read_iff_parse_joined_gifts :
    ['A', 'N', 'D'] ∉ gifts.labels ∧
    (∃ f,
      Formula.read gifts (Utf8.encode "big OR red\n# both\n NOT red AND small\n".toList) = .ok f ∧
      parse gifts "big OR red AND NOT red AND small".toList = .ok f ∧
      f.clauses = [[⟨0, true⟩, ⟨1, true⟩], [⟨1, false⟩], [⟨0, false⟩]] ∧ f.atoms = 2) ∧
    (∀ f, Formula.read gifts (Utf8.encode "big AND\nsmall\n".toList) ≠ .ok f) ∧
    ∃ f, Formula.read gifts (Utf8.encode "# none\n".toList) = .ok f ∧ f.clauses = [] ∧
      f.atoms = 2 := by
  have hand : ['A', 'N', 'D'] ∉ gifts.labels := by decide
  have hboth : File.contentLines (Utf8.encode "big OR red\n# both\n NOT red AND small\n".toList) =
      ["big OR red".toList, "NOT red AND small".toList] := by decide +kernel
  have hopen : File.contentLines (Utf8.encode "big AND\nsmall\n".toList) =
      ["big AND".toList, "small".toList] := by decide +kernel
  obtain ⟨hjoined, -⟩ := read_iff_parse_joined hand (File.decodable_encode
    "big OR red\n# both\n NOT red AND small\n".toList)
  obtain ⟨hrefused, -⟩ := read_iff_parse_joined hand (File.decodable_encode
    "big AND\nsmall\n".toList)
  obtain ⟨-, hcomment⟩ := read_iff_parse_joined hand (File.decodable_encode "# none\n".toList)
  rw [hboth] at hjoined
  rw [hopen] at hrefused
  obtain ⟨f, hparse, hf⟩ : ∃ f, parse gifts "big OR red AND NOT red AND small".toList = .ok f ∧
      (f.clauses, f.atoms) =
        ([[⟨0, true⟩, ⟨1, true⟩], [⟨1, false⟩], [⟨0, false⟩]], 2) :=
    map_eq_ok_iff.mp (by decide)
  obtain ⟨hclauses, hatoms⟩ := Prod.mk.inj hf
  refine ⟨hand, ⟨f, (hjoined (by simp) f).mpr hparse, hparse, hclauses, hatoms⟩, fun f hread => ?_,
    hcomment (by decide +kernel)⟩
  have herror : parse gifts "big AND AND small".toList =
      .error (.invalidNegation "AND".toList "AND small".toList) := by decide
  have hparse := (hrefused (by simp) f).mp hread
  have hsome := herror.symm.trans hparse
  cases hsome

end PreferenceLogic.Formula
