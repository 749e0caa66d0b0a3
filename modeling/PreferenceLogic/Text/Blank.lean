/-!
# Texts and blank characters

Labels, formulas, rule lines and reports are texts: lists of characters, so that cutting a text
is recursion on it. A character is blank when it has the Unicode property `White_Space`.

Definitions:
* `Text.isBlank`: the table of blank characters.
* `Text.trim`: a text without the blank characters at its two ends.
* `Text.words`: the longest runs of characters that are not blank.

Results:
* `Text.isBlank_of_isWhitespace`: the ASCII blanks of the standard library are in the table.
* `Text.isBlank_of_mem_words`, `Text.ne_nil_of_mem_words`: a word has no blank and is not empty.
-/

namespace PreferenceLogic

/-- A text is the list of its characters. -/
abbrev Text := List Char

namespace Text

/-! ## Blank characters -/

/-- The code points with the Unicode property `White_Space`, as ranges with both ends included. -/
def blankRanges : List (Nat × Nat) :=
  [(0x0009, 0x000D), (0x0020, 0x0020), (0x0085, 0x0085), (0x00A0, 0x00A0), (0x1680, 0x1680),
   (0x2000, 0x200A), (0x2028, 0x2029), (0x202F, 0x202F), (0x205F, 0x205F), (0x3000, 0x3000)]

/-- Whether a character is blank. -/
def isBlank (c : Char) : Bool :=
  blankRanges.any fun range => range.1 ≤ c.toNat && c.toNat ≤ range.2

theorem isBlank_of_isWhitespace (c : Char) (h : c.isWhitespace) : isBlank c := by
  simp only [Char.isWhitespace, Bool.or_eq_true, decide_eq_true_eq] at h
  rcases h with ((h | h) | h) | h <;> subst h <;> decide

/-! ## Trimming -/

/-- The text from its first character that is not blank on. -/
def trimStart (t : Text) : Text := t.dropWhile isBlank

/-- The text up to its last character that is not blank. -/
def trimEnd (t : Text) : Text := (t.reverse.dropWhile isBlank).reverse

/-- The text without the blank characters at its two ends. -/
def trim (t : Text) : Text := trimEnd (trimStart t)

@[simp] theorem trim_nil : trim [] = [] := rfl

/-! ## Words -/

theorem eq_false_of_mem_splitOnP {α : Type} {cuts : α → Bool} {l piece : List α}
    (h : piece ∈ l.splitOnP cuts) : ∀ a ∈ piece, cuts a = false := by
  induction l generalizing piece with
  | nil => simp_all [List.splitOnP_nil]
  | cons a rest ih =>
    rw [List.splitOnP_cons_eq_if_modifyHead] at h
    split at h
    · rcases List.mem_cons.1 h with rfl | h
      · simp
      · exact ih h
    · rename_i ha
      obtain ⟨first, others, hsplit⟩ :=
        List.exists_cons_of_ne_nil (List.splitOnP_ne_nil cuts rest)
      rw [hsplit, List.modifyHead_cons] at h
      rcases List.mem_cons.1 h with rfl | h
      · intro b hb
        rcases List.mem_cons.1 hb with rfl | hb
        · simpa using ha
        · exact ih (by simp [hsplit]) b hb
      · exact ih (by simp [hsplit, h])

/-- The longest runs of characters that are not blank, from left to right. -/
def words (t : Text) : List Text := (t.splitOnP isBlank).filter (· ≠ [])

theorem isBlank_of_mem_words {t word : Text} (h : word ∈ words t) :
    ∀ c ∈ word, isBlank c = false :=
  eq_false_of_mem_splitOnP (List.mem_filter.1 h).1

theorem ne_nil_of_mem_words {t word : Text} (h : word ∈ words t) : word ≠ [] := by
  simpa using (List.mem_filter.1 h).2

end Text

end PreferenceLogic
