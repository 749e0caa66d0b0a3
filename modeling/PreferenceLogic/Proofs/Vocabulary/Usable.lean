import PreferenceLogic.Proofs.Formula.Language
import PreferenceLogic.Proofs.Text.Lines
import PreferenceLogic.Proofs.Vocabulary.Table

/-!
# Labels that can be used

What may be a label is decided where attributes are declared, and what may stand for a label is
decided where formulas and files are read. The two agree on labels of one word: such a label, or the
negation marker and the label, is a formula, whatever the word is. Only in a file the label must not
look like a comment. A label of several words can be declared, but not denied.

Definitions:
* `Vocabulary.Usable`: a label, its denial and a file with the label are read as its literal.

Results:
* `Formula.parse_eq_of_spells`: a spelling with at most one space is a formula.
* `Vocabulary.usable_iff`: the labels of a file of attributes that can be used.
* `Vocabulary.label_read_as_literal`: what is read of a label of one word.
-/

namespace PreferenceLogic

/-! ## Formulas of one literal -/

namespace Formula

variable {v : Vocabulary} {t : Text} {l : Literal}

theorem parse_eq_of_spells (hspaces : t.count ' ' < 2) (h : Spells v t l) :
    parse v t = .ok (.ofClauses v.size [[l]]) := by
  have htrimmed : (Text.trim t).count ' ' < 2 :=
    Nat.lt_of_le_of_lt ((Text.trim_sublist t).count_le ' ') hspaces
  have hconjunction : Text.split conjunction (Text.trim t) = [Text.trim t] :=
    Text.split_of_count_space_lt ['A', 'N', 'D'] htrimmed
  have hdisjunction : Text.split disjunction (Text.trim t) = [Text.trim t] :=
    Text.split_of_count_space_lt ['O', 'R'] htrimmed
  have hliteral : parseLiteral v (Text.trim t) = .ok l :=
    parseLiteral_eq_ok_iff.mpr (h.congr (Text.words_trim t))
  have hclause : parseClause v (Text.trim t) = .ok [l] := by
    rw [parseClause, hdisjunction, mapM_eq_ok_iff]
    exact .cons hliteral .nil
  refine parse_eq_ok_iff.mpr ⟨[[l]], ?_, rfl⟩
  rw [hconjunction]
  exact .cons hclause .nil

/-- A formula of one literal is a spelling of it. -/
theorem spells_of_parse (h : parse v t = .ok (.ofClauses v.size [[l]])) : Spells v t l := by
  obtain ⟨clauses, hsplit, hclauses⟩ := parse_eq_ok_iff.mp h
  obtain rfl : [[l]] = clauses := congrArg Formula.clauses hclauses
  obtain ⟨part, _, hpart, hnone, hparts⟩ := List.forall₂_cons_right_iff.mp hsplit
  obtain rfl := List.forall₂_nil_right_iff.mp hnone
  obtain ⟨s, _, hs, hnone, hpieces⟩ := List.forall₂_cons_right_iff.mp (mapM_eq_ok_iff.mp hpart)
  obtain rfl := List.forall₂_nil_right_iff.mp hnone
  -- a text that is its only piece is this piece
  have htrim : part = Text.trim t := by
    have hjoined := Text.intercalate_split (t := Text.trim t) conjunction_ne_nil
    rwa [hparts, List.intercalate_singleton] at hjoined
  have hpiece : s = part := by
    have hjoined := Text.intercalate_split (t := part) disjunction_ne_nil
    rwa [hpieces, List.intercalate_singleton] at hjoined
  rw [hpiece, htrim] at hs
  exact (parseLiteral_eq_ok_iff.mp hs).congr (Text.words_trim t).symm

end Formula

/-! ## Labels -/

namespace Vocabulary

variable {v : Vocabulary} {label : Text} {l : Literal} {input : List UInt8}

/-- A label can be used: a formula that is the label or denies it is read as its literal or the
opposite one, and so is a file that holds nothing but the label. -/
structure Usable (v : Vocabulary) (label : Text) (l : Literal) : Prop where
  resolve : v.resolve label = .ok l
  parse : Formula.parse v label = .ok (.ofClauses v.size [[l]])
  parse_negation :
    Formula.parse v (negationMarker ++ ' ' :: label) = .ok (.ofClauses v.size [[l.negate]])
  read : ∀ file, Utf8.Holds file label →
    Formula.read v file = .ok (.ofClauses v.size [[l]])

/-- A label from a file of attributes is trimmed and not empty. -/
theorem trimmed_of_mem_labels (hread : Vocabulary.read input = .ok v) (hlabel : label ∈ v.labels) :
    label ≠ [] ∧ Text.trim label = label := by
  obtain ⟨-, hdeclared⟩ := read_eq_ok_iff.mp hread
  obtain ⟨a, ha, positive, rfl⟩ := mem_labelsOf.mp hlabel
  obtain ⟨line, -, category, first, second, -, -, -, -, rfl, -, hfirst, hsecond⟩ :=
    exists_mem_of_forall₂ hdeclared ha
  cases positive with
  | true => exact ⟨hfirst, Text.trim_trim first⟩
  | false => exact ⟨hsecond, Text.trim_trim second⟩

/-- The marker is one more word before those of the label. -/
theorem words_negation (label : Text) :
    Text.words (negationMarker ++ ' ' :: label) = negationMarker :: Text.words label := by
  have hmarker : Text.IsWord negationMarker := by decide
  rw [Text.words_append_cons Text.isBlank_space, hmarker.words_eq]
  rfl

/-- A label that can be used is one word: two words could not be denied any more. -/
theorem Usable.exists_word (h : Usable v label l) : ∃ word, Text.words label = [word] := by
  have hspelled := Formula.spells_iff_words.mp (Formula.spells_of_parse h.parse)
  have hdenied := Formula.spells_iff_words.mp (Formula.spells_of_parse h.parse_negation)
  rw [words_negation] at hdenied
  rcases hspelled with ⟨word, hword, -⟩ | ⟨marker, word, hpair, -⟩
  · exact ⟨word, hword⟩
  · rw [hpair] at hdenied
    rcases hdenied with ⟨_, hsingle, -⟩ | ⟨_, _, htriple, -⟩
    · cases hsingle
    · cases htriple

theorem exists_resolve_of_mem_labels (hlabel : label ∈ v.labels) :
    ∃ l, v.resolve label = .ok l := by
  obtain ⟨l, hl⟩ := mem_labels_iff.mp hlabel
  exact ⟨l, resolve_eq_ok_iff.mpr hl⟩

section

variable (hword : Text.IsWord label) (hresolve : v.resolve label = .ok l)

include hword hresolve

theorem parse_label : Formula.parse v label = .ok (.ofClauses v.size [[l]]) := by
  have hspaces := hword.count_space
  refine Formula.parse_eq_of_spells (by omega) (Formula.spells_iff_words.mpr (.inl ?_))
  exact ⟨label, hword.words_eq, hresolve⟩

theorem parse_negation_label :
    Formula.parse v (negationMarker ++ ' ' :: label) = .ok (.ofClauses v.size [[l.negate]]) := by
  have hmarker : Text.IsWord negationMarker := by decide
  have hspaces : (negationMarker ++ ' ' :: label).count ' ' = 1 := by
    rw [List.count_append, List.count_cons_self, hmarker.count_space,
      hword.count_space]
  have hwords : Text.words (negationMarker ++ ' ' :: label) = [negationMarker, label] := by
    rw [words_negation, hword.words_eq]
  refine Formula.parse_eq_of_spells (by omega) (Formula.spells_iff_words.mpr (.inr ?_))
  refine ⟨negationMarker, label, hwords, ?_, by rw [Literal.negate_negate, hresolve]⟩
  exact Formula.isNegation_iff.mp (by decide)

/-- A file that holds a label only is read as its literal, or as a comment. -/
theorem read_label {file : List UInt8} (hfile : Utf8.Holds file label) :
    Formula.read v file = .ok (.ofClauses v.size
      (if label.head? = some File.commentMark then [] else [[l]])) := by
  have hnewline : '\n' ∉ label := fun hmem => by
    have hblank := hword.2 '\n' hmem
    exact absurd hblank (by decide)
  obtain ⟨s, hlines, hs⟩ := Utf8.lines_of_holds hfile hnewline hword.1
  have hblank : Text.Blank s := by
    rcases hs with rfl | rfl
    · exact fun _ hc => nomatch hc
    · intro c hc
      rw [List.mem_singleton.mp hc]
      decide
  have hdecodable : File.Decodable file := by
    intro line hline
    rw [hlines, List.mem_singleton] at hline
    rw [hline, Utf8.decode?_encode]
    rfl
  have hcontent : File.contentLines file = if File.isSilent label then [] else [label] := by
    rw [File.contentLines, hlines, File.contentOf_cons (Utf8.decode?_encode _),
      Text.trim_word_append hword hblank]
    rfl
  have hempty : label.isEmpty = false := List.isEmpty_eq_false_iff.mpr hword.1
  rw [Formula.read_eq_ok_iff]
  refine ⟨hdecodable, ?_⟩
  by_cases hcomment : label.head? = some File.commentMark
  · have hsilent : File.isSilent label = true := by
      rw [File.isSilent, hcomment]
      simp
    rw [hcontent, if_pos hsilent, if_pos hcomment]
    exact ⟨[], .nil, rfl⟩
  · have hsilent : ¬ File.isSilent label = true := by
      simp [File.isSilent, hempty, hcomment]
    rw [hcontent, if_neg hsilent, if_neg hcomment]
    exact ⟨[_], .cons (parse_label hword hresolve) .nil, rfl⟩

end

/-- The labels that can be used are those of one word that do not look like comments. -/
theorem usable_iff (hread : Vocabulary.read input = .ok v) (hlabel : label ∈ v.labels) :
    (∃ l, Usable v label l) ↔
      (∀ c ∈ label, Text.isBlank c = false) ∧ label.head? ≠ some File.commentMark := by
  obtain ⟨hne, htrim⟩ := trimmed_of_mem_labels hread hlabel
  constructor
  · rintro ⟨l, h⟩
    obtain ⟨word, hword⟩ := h.exists_word
    have hisWord : Text.IsWord label := by
      rw [← htrim, Text.trim_of_words_eq_singleton hword]
      exact (Text.words_eq_singleton_iff.mp hword).1
    refine ⟨hisWord.2, fun hcomment => ?_⟩
    have hfile : Utf8.Holds (Utf8.encode label) label :=
      ⟨[], List.mem_cons_self, by rw [List.append_nil]⟩
    have hskipped := read_label hisWord h.resolve hfile
    rw [if_pos hcomment, h.read _ hfile] at hskipped
    have hclauses : [[l]] = ([] : List Clause) :=
      congrArg Formula.clauses (Except.ok.inj hskipped)
    cases hclauses
  · rintro ⟨hblank, hcomment⟩
    have hword : Text.IsWord label := ⟨hne, hblank⟩
    obtain ⟨l, hresolve⟩ := exists_resolve_of_mem_labels hlabel
    refine ⟨l, hresolve, parse_label hword hresolve, parse_negation_label hword hresolve,
      fun file hfile => ?_⟩
    rw [read_label hword hresolve hfile, if_neg hcomment]

/-- A comment and two words, declared as labels. -/
def podium : Vocabulary where
  attributes := [⟨"Rank".toList, "#1".toList, "runner up".toList⟩]
  nodup_labels := by decide

/-- Both labels can be declared, but neither can be used. -/
theorem not_usable_podium :
    Vocabulary.read (Utf8.encode "Rank: #1, runner up\n".toList) = .ok podium ∧
      podium.labels = ["#1".toList, "runner up".toList] ∧
      (¬ ∃ l, Usable podium "#1".toList l) ∧ ¬ ∃ l, Usable podium "runner up".toList l := by
  have hread : Vocabulary.read (Utf8.encode "Rank: #1, runner up\n".toList) = .ok podium := by
    decide +kernel
  refine ⟨hread, rfl, ?_, ?_⟩
  · rw [usable_iff hread (by decide)]
    rintro ⟨-, hcomment⟩
    exact hcomment (by decide)
  · rw [usable_iff hread (by decide)]
    rintro ⟨hblank, -⟩
    exact absurd (hblank ' ' (by decide)) (by decide)

/-- **Labels of one word.** Of a vocabulary that is read from a file, every label without a blank in
it resolves to a literal. The label alone is read as the clause of this literal, and after the
negation marker as that of the opposite literal, even if the label looks like a keyword. A file with
the label as its only line is read as the same clause, unless the label starts with the comment
mark: then it is read as no clause. -/
theorem label_read_as_literal (hread : Vocabulary.read input = .ok v) (hlabel : label ∈ v.labels)
    (hblank : ∀ c ∈ label, Text.isBlank c = false) :
    ∃ l, v.resolve label = .ok l ∧
      Formula.parse v label = .ok (.ofClauses v.size [[l]]) ∧
      Formula.parse v (negationMarker ++ ' ' :: label) = .ok (.ofClauses v.size [[l.negate]]) ∧
      ∀ file, Utf8.Holds file label → Formula.read v file = .ok (.ofClauses v.size
        (if label.head? = some File.commentMark then [] else [[l]])) := by
  have hword : Text.IsWord label := ⟨(trimmed_of_mem_labels hread hlabel).1, hblank⟩
  obtain ⟨l, hresolve⟩ := exists_resolve_of_mem_labels hlabel
  exact ⟨l, hresolve, parse_label hword hresolve, parse_negation_label hword hresolve,
    fun _ hfile => read_label hword hresolve hfile⟩

/-- The negation marker is a label like any other, with and without the marker before it. A label
with the comment mark is read in a formula, but a line of a file that starts with it is not. -/
theorem label_read_as_literal_marker :
    ∃ v, Vocabulary.read (Utf8.encode "Answer: NOT, #1\n".toList) = .ok v ∧
      (∃ l, v.resolve "NOT".toList = .ok l ∧
        Formula.parse v "NOT NOT".toList = .ok (.ofClauses v.size [[l.negate]]) ∧
        Formula.read v (Utf8.encode "NOT\r\n".toList) = .ok (.ofClauses v.size [[l]])) ∧
      ∃ l, v.resolve "#1".toList = .ok l ∧
        Formula.parse v "#1".toList = .ok (.ofClauses v.size [[l]]) ∧
        Formula.read v (Utf8.encode "#1\n".toList) = .ok (.ofClauses v.size []) := by
  obtain ⟨v, hread, hlabels⟩ : ∃ v,
      Vocabulary.read (Utf8.encode "Answer: NOT, #1\n".toList) = .ok v ∧
        v.labels = ["NOT".toList, "#1".toList] := map_eq_ok_iff.mp (by decide +kernel)
  have hmarker : "NOT".toList ∈ v.labels := by rw [hlabels]; decide
  have hmark : "#1".toList ∈ v.labels := by rw [hlabels]; decide
  have hmarkerWord : Text.IsWord "NOT".toList := by decide
  have hmarkWord : Text.IsWord "#1".toList := by decide
  obtain ⟨l, hl, -, hnegation, hfile⟩ := label_read_as_literal hread hmarker hmarkerWord.2
  obtain ⟨m, hm, hparse, -, hcomment⟩ := label_read_as_literal hread hmark hmarkWord.2
  exact ⟨v, hread, ⟨l, hl, hnegation, hfile _ ⟨['\r', '\n'], by decide, rfl⟩⟩,
    m, hm, hparse, hcomment _ ⟨['\n'], by decide, rfl⟩⟩

end Vocabulary

end PreferenceLogic
