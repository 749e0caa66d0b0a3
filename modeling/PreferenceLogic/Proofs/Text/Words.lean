import Mathlib.Data.List.TakeWhile
import PreferenceLogic.Proofs.Text.Trim

/-!
# Words and the blanks around them

The words of a text are its longest runs of characters that are not blank. So a text is its words
with blanks between them, and what the blanks are cannot be seen from the words.

Definitions:
* `Text.Blank`, `Text.IsWord`: texts of blank characters only, and texts that are a single word.

Results:
* `Text.splitOn_eq_pair_iff`: two pieces are left by a single cut.
* `Text.words_append_cons`: a blank character divides the words before it from those after it.
* `Text.words_eq_singleton_iff`, `Text.words_eq_pair_iff`: the texts of one word and of two words.
* `Text.words_trim`, `Text.trim_of_words_eq_singleton`: trimming changes no words, and leaves just
  the word of a text that has only one.
* `Text.trim_append`, `Text.Blank.trim_append`: a text of two parts is trimmed at the start of the
  first one and at the end of the second one, unless this is blank.
* `Text.mem_words_of_spaced`: what stands between two blanks is a word of the text.
-/

namespace PreferenceLogic.Text

/-! ## Pieces -/

section

variable {α : Type} [BEq α] [LawfulBEq α] {a : α}

theorem splitOn_eq_singleton_iff {l piece : List α} :
    l.splitOn a = [piece] ↔ l = piece ∧ a ∉ piece := by
  constructor
  · intro h
    have hnot : a ∉ l := by
      intro hmem
      -- a cut would leave two pieces
      obtain ⟨s, t, rfl⟩ := List.append_of_mem hmem
      rw [List.splitOn_append_cons_self] at h
      obtain ⟨_, _, hs⟩ := List.exists_cons_of_ne_nil (List.splitOn_ne_nil a s)
      obtain ⟨_, _, ht⟩ := List.exists_cons_of_ne_nil (List.splitOn_ne_nil a t)
      simp [hs, ht] at h
    rw [List.splitOn_eq_singleton hnot, List.singleton_inj] at h
    exact ⟨h, h ▸ hnot⟩
  · rintro ⟨rfl, hnot⟩
    exact List.splitOn_eq_singleton hnot

/-- Two pieces are left by a single cut. -/
theorem splitOn_eq_pair_iff {l first second : List α} :
    l.splitOn a = [first, second] ↔ l = first ++ a :: second ∧ a ∉ first ∧ a ∉ second := by
  constructor
  · intro h
    have hmem : a ∈ l := by
      by_contra hnot
      rw [List.splitOn_eq_singleton hnot] at h
      cases h
    obtain ⟨s, t, rfl⟩ := List.append_of_mem hmem
    rw [List.splitOn_append_cons_self] at h
    obtain ⟨piece, pieces, hs⟩ := List.exists_cons_of_ne_nil (List.splitOn_ne_nil a s)
    obtain ⟨other, others, ht⟩ := List.exists_cons_of_ne_nil (List.splitOn_ne_nil a t)
    rw [hs, ht] at h
    obtain ⟨rfl, hrest⟩ := List.cons.inj h
    rcases List.append_eq_singleton_iff.mp hrest with ⟨rfl, hother⟩ | ⟨-, hother⟩
    · obtain ⟨rfl, hfirst⟩ := splitOn_eq_singleton_iff.mp hs
      obtain ⟨rfl, hsecond⟩ := splitOn_eq_singleton_iff.mp (ht.trans hother)
      exact ⟨rfl, hfirst, hsecond⟩
    · cases hother
  · rintro ⟨rfl, hfirst, hsecond⟩
    rw [List.splitOn_append_cons_self, List.splitOn_eq_singleton hfirst,
      List.splitOn_eq_singleton hsecond]
    rfl

end

/-! ## Blanks and words -/

/-- A text of blank characters, perhaps of none. -/
def Blank (t : Text) : Prop := ∀ c ∈ t, isBlank c = true

/-- A text that is a single word: it is not empty and has no blank. -/
def IsWord (t : Text) : Prop := t ≠ [] ∧ ∀ c ∈ t, isBlank c = false

-- the characters of the text are gone through, not all characters
instance (t : Text) : Decidable (IsWord t) :=
  letI := List.decidableBAll (isBlank · = false) t
  inferInstanceAs (Decidable (_ ∧ _))

theorem isWord_of_mem_words {t word : Text} (h : word ∈ words t) : IsWord word :=
  ⟨ne_nil_of_mem_words h, isBlank_of_mem_words h⟩

theorem words_append_cons {c : Char} (hc : isBlank c = true) (s t : Text) :
    words (s ++ c :: t) = words s ++ words t := by
  rw [words, List.splitOnP_append_cons s t hc, List.filter_append]
  rfl

theorem words_cons {c : Char} (hc : isBlank c = true) (t : Text) : words (c :: t) = words t :=
  words_append_cons hc [] t

theorem words_concat {c : Char} (hc : isBlank c = true) (t : Text) :
    words (t ++ [c]) = words t := by
  rw [words_append_cons hc]
  exact List.append_nil _

theorem IsWord.words_eq {word : Text} (h : IsWord word) : words word = [word] := by
  rw [words, List.splitOnP_eq_singleton h.2]
  simp [h.1]

namespace Blank

variable {b : Text} (h : Blank b)

include h

theorem words_append (t : Text) : words (b ++ t) = words t := by
  induction b with
  | nil => rfl
  | cons c b ih =>
    rw [List.cons_append, words_cons (h c List.mem_cons_self)]
    exact ih fun d hd => h d (List.mem_cons_of_mem c hd)

theorem words_eq_nil : words b = [] := by
  have hnil := h.words_append []
  rwa [List.append_nil] at hnil

end Blank

/-- A word ends where the text ends or a blank follows. -/
theorem IsWord.words_append {word rest : Text} (hword : IsWord word)
    (hrest : ∀ c, rest.head? = some c → isBlank c = true) :
    words (word ++ rest) = word :: words rest := by
  cases rest with
  | nil =>
    rw [List.append_nil, hword.words_eq]
    rfl
  | cons c rest =>
    have hc : isBlank c = true := hrest c rfl
    rw [words_append_cons hc, hword.words_eq, words_cons hc]
    rfl

/-! ## From words to texts -/

/-- A text that is not blank starts with blanks and its first word. -/
theorem exists_of_not_blank {t : Text} (h : ¬ Blank t) :
    ∃ b word rest, t = b ++ (word ++ rest) ∧ Blank b ∧ IsWord word ∧
      ∀ c, rest.head? = some c → isBlank c = true := by
  obtain ⟨c, tail, htail⟩ : ∃ c tail, t.dropWhile isBlank = c :: tail := by
    refine List.exists_cons_of_ne_nil fun hnil => h ?_
    exact List.dropWhile_eq_nil_iff.mp hnil
  have hc : isBlank c = false := by
    have := List.head?_dropWhile_not isBlank t
    rw [htail] at this
    simpa using this
  refine ⟨t.takeWhile isBlank, (c :: tail).takeWhile (!isBlank ·),
    (c :: tail).dropWhile (!isBlank ·), ?_, ?_, ⟨?_, ?_⟩, ?_⟩
  · rw [List.takeWhile_append_dropWhile, ← htail, List.takeWhile_append_dropWhile]
  · intro d hd
    exact List.all_eq_true.mp List.all_takeWhile d hd
  · simp [hc]
  · intro d hd
    simpa using List.all_eq_true.mp List.all_takeWhile d hd
  · intro d hd
    have := List.head?_dropWhile_not (!isBlank ·) (c :: tail)
    rw [hd] at this
    simpa using this

/-- What a text looks like whose words start with a given one. -/
theorem words_eq_cons {t word : Text} {others : List Text} (h : words t = word :: others) :
    ∃ b rest, t = b ++ (word ++ rest) ∧ Blank b ∧ words rest = others ∧
      ∀ c, rest.head? = some c → isBlank c = true := by
  have hblank : ¬ Blank t := by
    intro hblank
    rw [hblank.words_eq_nil] at h
    cases h
  obtain ⟨b, first, rest, rfl, hb, hfirst, hrest⟩ := exists_of_not_blank hblank
  rw [hb.words_append, hfirst.words_append hrest] at h
  cases h
  exact ⟨b, rest, rfl, hb, rfl, hrest⟩

theorem words_eq_nil_iff {t : Text} : words t = [] ↔ Blank t := by
  refine ⟨fun h => ?_, Blank.words_eq_nil⟩
  by_contra hblank
  obtain ⟨b, word, rest, rfl, hb, hword, hrest⟩ := exists_of_not_blank hblank
  rw [hb.words_append, hword.words_append hrest] at h
  cases h

theorem words_eq_singleton_iff {t word : Text} :
    words t = [word] ↔ IsWord word ∧
      ∃ before after, t = before ++ (word ++ after) ∧ Blank before ∧ Blank after := by
  constructor
  · intro h
    have hword : IsWord word :=
      isWord_of_mem_words (t := t) (by rw [h]; exact List.mem_singleton_self _)
    obtain ⟨before, after, ht, hbefore, hafter, -⟩ := words_eq_cons h
    exact ⟨hword, before, after, ht, hbefore, words_eq_nil_iff.mp hafter⟩
  · rintro ⟨hword, before, after, rfl, hbefore, hafter⟩
    have hhead : ∀ c, after.head? = some c → isBlank c = true :=
      fun c hc => hafter c (List.mem_of_head? hc)
    rw [hbefore.words_append, hword.words_append hhead, hafter.words_eq_nil]

theorem words_eq_pair_iff {t first second : Text} :
    words t = [first, second] ↔ IsWord first ∧ IsWord second ∧
      ∃ before between after, t = before ++ (first ++ (between ++ (second ++ after))) ∧
        Blank before ∧ Blank between ∧ between ≠ [] ∧ Blank after := by
  constructor
  · intro h
    have hfirst : IsWord first := isWord_of_mem_words (t := t) (by rw [h]; exact List.mem_cons_self)
    obtain ⟨before, rest, ht, hbefore, hwords, hhead⟩ := words_eq_cons h
    obtain ⟨hsecond, between, after, hrest, hbetween, hafter⟩ := words_eq_singleton_iff.mp hwords
    refine ⟨hfirst, hsecond, before, between, after, by rw [ht, hrest], hbefore, hbetween, ?_,
      hafter⟩
    -- without a blank between them the two words would be one
    rintro rfl
    obtain ⟨c, second, rfl⟩ := List.exists_cons_of_ne_nil hsecond.1
    have hc : isBlank c = true := hhead c (by rw [hrest]; rfl)
    rw [hsecond.2 c List.mem_cons_self] at hc
    cases hc
  · rintro ⟨hfirst, hsecond, before, between, after, rfl, hbefore, hbetween, hne, hafter⟩
    obtain ⟨c, between, rfl⟩ := List.exists_cons_of_ne_nil hne
    have hrest : words ((c :: between) ++ (second ++ after)) = [second] :=
      words_eq_singleton_iff.mpr ⟨hsecond, _, _, rfl, hbetween, hafter⟩
    have hhead : ∀ d, ((c :: between) ++ (second ++ after)).head? = some d → isBlank d = true := by
      intro d hd
      cases hd
      exact hbetween c List.mem_cons_self
    rw [hbefore.words_append, hfirst.words_append hhead, hrest]

/-! ## Trimmed texts -/

theorem words_trim (t : Text) : words (trim t) = words t :=
  (trim_iff (P := fun s => words s = words t) (fun _ s hc => by rw [words_cons hc s])
    (fun s _ hc => by rw [words_concat hc s]) t).mpr rfl

theorem trimStart_eq_nil_iff {t : Text} : trimStart t = [] ↔ Blank t := List.dropWhile_eq_nil_iff

theorem not_blank_append {s t : Text} (h : ¬ Blank t) : ¬ Blank (s ++ t) :=
  fun hblank => h fun c hc => hblank c (List.mem_append_right _ hc)

theorem trimStart_append {s : Text} (h : ¬ Blank s) (t : Text) :
    trimStart (s ++ t) = trimStart s ++ t := by
  have hne : ¬ (s.dropWhile isBlank).isEmpty = true := fun hempty =>
    h (trimStart_eq_nil_iff.mp (List.isEmpty_iff.mp hempty))
  rw [trimStart, List.dropWhile_append, if_neg hne, trimStart]

theorem trimEnd_append {t : Text} (h : ¬ Blank t) (s : Text) :
    trimEnd (s ++ t) = s ++ trimEnd t := by
  have hreverse : ¬ Blank t.reverse := fun hblank =>
    h fun c hc => hblank c (List.mem_reverse.mpr hc)
  rw [trimEnd, List.reverse_append, ← trimStart, trimStart_append hreverse, List.reverse_append,
    List.reverse_reverse, trimStart, trimEnd]

/-- A text of two parts that are not blank is trimmed in the first one and in the second one. -/
theorem trim_append {s t : Text} (hs : ¬ Blank s) (ht : ¬ Blank t) :
    trim (s ++ t) = trimStart s ++ trimEnd t := by
  rw [trim, trimStart_append hs, trimEnd_append ht]

theorem Blank.trimEnd_append {b : Text} (h : Blank b) (s : Text) :
    trimEnd (s ++ b) = trimEnd s := by
  have hreverse : ∀ c ∈ b.reverse, isBlank c = true := fun c hc => h c (List.mem_reverse.mp hc)
  rw [trimEnd, List.reverse_append, List.dropWhile_append_of_pos hreverse, ← trimEnd]

theorem Blank.trim_append {b : Text} (h : Blank b) (s : Text) : trim (s ++ b) = trim s := by
  by_cases hs : Blank s
  · have hboth : Blank (s ++ b) := fun c hc => (List.mem_append.mp hc).elim (hs c) (h c)
    rw [trim, trimStart_eq_nil_iff.mpr hboth, trim, trimStart_eq_nil_iff.mpr hs]
  · rw [trim, trimStart_append hs, h.trimEnd_append, trim]

theorem Blank.append_trim {b : Text} (h : Blank b) (t : Text) : trim (b ++ t) = trim t := by
  rw [trim, trimStart, List.dropWhile_append_of_pos h, ← trimStart, ← trim]

theorem trim_trimStart (t : Text) : trim (trimStart t) = trim t := by
  rw [trim, trimStart_trimStart, ← trim]

theorem trim_trimEnd (t : Text) : trim (trimEnd t) = trim t := by
  have hblank : Blank (t.rtakeWhile isBlank) := fun c hc => List.mem_rtakeWhile_imp hc
  have ht : trimEnd t ++ t.rtakeWhile isBlank = t := by
    rw [trimEnd_eq_rdropWhile, List.rdropWhile_append_rtakeWhile]
  rw [← hblank.trim_append, ht]

theorem trim_eq_nil_iff {t : Text} : trim t = [] ↔ Blank t := by
  rw [← words_eq_nil_iff, ← words_trim t, words_eq_nil_iff]
  constructor
  · intro h
    rw [h]
    exact fun c hc => absurd hc List.not_mem_nil
  · intro h
    rw [← trim_trim, trim, trimStart_eq_nil_iff.mpr h]
    rfl

theorem not_blank_of_trim_eq {t : Text} (hne : t ≠ []) (h : trim t = t) : ¬ Blank t := by
  rw [← trim_eq_nil_iff, h]
  exact hne

/-- No blank stands at the end of a trimmed text. -/
theorem eq_nil_of_trim_eq_append {s t b : Text} (h : trim t = s ++ b) (hb : Blank b) : b = [] := by
  have htrim : trimEnd (s ++ b) = s ++ b := by rw [← h, trim, trimEnd_trimEnd]
  rw [hb.trimEnd_append] at htrim
  have hshort : trimEnd s <+: s := trimEnd_prefix s
  have hlength := hshort.length_le
  rw [htrim, List.length_append] at hlength
  exact List.length_eq_zero_iff.mp (by omega)

/-- Blanks after a word are trimmed. -/
theorem trim_word_append {word after : Text} (hword : IsWord word) (hafter : Blank after) :
    trim (word ++ after) = word := by
  have hstart : trimStart word = word :=
    trimStart_eq_self_iff.mpr fun c hc => hword.2 c (List.mem_of_head? hc)
  have hend : trimStart word.reverse = word.reverse :=
    trimStart_eq_self_iff.mpr fun c hc =>
      hword.2 c (List.mem_reverse.mp (List.mem_of_head? hc))
  rw [hafter.trim_append, trim, hstart, trimEnd, ← trimStart, hend, List.reverse_reverse]

theorem trim_of_words_eq_singleton {t word : Text} (h : words t = [word]) : trim t = word := by
  obtain ⟨hword, before, after, rfl, hbefore, hafter⟩ := words_eq_singleton_iff.mp h
  have hstart : trimStart (before ++ (word ++ after)) = trimStart (word ++ after) :=
    List.dropWhile_append_of_pos hbefore
  rw [trim, hstart]
  exact trim_word_append hword hafter

/-! ## Words between spaces -/

/-- A word with a space on either side. -/
def spaced (word : Text) : Text := ' ' :: (word ++ [' '])

theorem spaced_ne_nil (word : Text) : spaced word ≠ [] := List.cons_ne_nil _ _

theorem isBlank_space : isBlank ' ' = true := by decide

theorem IsWord.count_space {word : Text} (h : IsWord word) : word.count ' ' = 0 := by
  rw [List.count_eq_zero]
  intro hspace
  have hblank := h.2 ' ' hspace
  rw [isBlank_space] at hblank
  cases hblank

theorem words_append_spaced {word : Text} (h : IsWord word) (s t : Text) :
    words (s ++ (spaced word ++ t)) = words s ++ word :: words t := by
  have heq : s ++ (spaced word ++ t) = s ++ ' ' :: (word ++ ' ' :: t) := by simp [spaced]
  rw [heq, words_append_cons isBlank_space, words_append_cons isBlank_space, h.words_eq]
  rfl

theorem mem_words_of_spaced {word t : Text} (h : IsWord word) (hspaced : spaced word <:+: t) :
    word ∈ words t := by
  obtain ⟨before, after, rfl⟩ := hspaced
  rw [List.append_assoc, words_append_spaced h]
  simp

end PreferenceLogic.Text
