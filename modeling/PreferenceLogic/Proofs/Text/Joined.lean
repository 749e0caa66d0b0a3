import PreferenceLogic.Proofs.Text.Words
import PreferenceLogic.Text.Separator

/-!
# Pieces joined by a separator

Cutting a text at a separator and joining the pieces again loses nothing. Joining pieces and cutting
again gives them back if the separator is found in no other place than where it was put. For a
separator that is a word between spaces this is so if no piece has the word.

Definitions:
* `Text.FirstCut`: what stands before and after the first occurrence of a separator.
* `Text.Pieces`: what stands between the occurrences, which are found from left to right.

Results:
* `Text.cutFirst?_eq_some_iff`, `Text.split_eq_iff`: cutting finds what these say.
* `Text.intercalate_split`: the pieces of a text, joined, are the text.
* `Text.cutFirst?_singleton_eq_some_iff`, `Text.cutLast?_append`: what stands before and after the
  first of a character, and before and after the last one.
* `Text.split_intercalate`: pieces without the word, joined and cut, are the pieces.
* `Text.intercalate_cons`, `Text.intercalate_concat`: what is joined to the first piece, and to the
  last one.
-/

namespace PreferenceLogic.Text

/-! ## The first occurrence -/

/-- A text is cut at the first place where a separator stands: nothing shorter stands before another
occurrence. -/
structure FirstCut (separator t before after : Text) : Prop where
  text_eq : t = before ++ (separator ++ after)
  length_le : ∀ {b a : Text}, t = b ++ (separator ++ a) → before.length ≤ b.length

/-- A text consists of pieces: what stands before the first separator, and the pieces of what stands
after it. -/
inductive Pieces (separator : Text) : Text → List Text → Prop where
  | last {t : Text} (h : ¬ separator <:+: t) : Pieces separator t [t]
  | cut {t piece rest : Text} {pieces : List Text} (h : FirstCut separator t piece rest)
    (hrest : Pieces separator rest pieces) : Pieces separator t (piece :: pieces)

section

variable {separator t before after : Text}

theorem FirstCut.unique {before' after' : Text} (h : FirstCut separator t before after)
    (h' : FirstCut separator t before' after') : before = before' ∧ after = after' := by
  have hlength : before.length = before'.length :=
    Nat.le_antisymm (h.length_le h'.text_eq) (h'.length_le h.text_eq)
  obtain ⟨hbefore, hrest⟩ := List.append_inj (h.text_eq.symm.trans h'.text_eq) hlength
  exact ⟨hbefore, List.append_cancel_left hrest⟩

theorem FirstCut.isInfix (h : FirstCut separator t before after) : separator <:+: t :=
  ⟨before, after, by rw [h.text_eq, List.append_assoc]⟩

theorem firstCut_of_cutFirst? (h : cutFirst? separator t = some (before, after)) :
    FirstCut separator t before after := by
  refine ⟨by rw [eq_of_cutFirst? h, List.append_assoc], fun {b a} ht => ?_⟩
  induction t generalizing before b with
  | nil => cases h
  | cons c t ih =>
    rw [cutFirst?] at h
    split at h
    · cases h
      exact Nat.zero_le _
    · rename_i hhead
      obtain ⟨⟨before, after⟩, hcut, heq⟩ := Option.map_eq_some_iff.mp h
      cases heq
      cases b with
      | nil =>
        exact absurd (List.isPrefixOf_iff_prefix.mpr ⟨a, ht.symm⟩) hhead
      | cons d b =>
        exact Nat.succ_le_succ (ih hcut (List.cons.inj ht).2)

theorem cutFirst?_eq_none {separator t : Text} (h : ¬ separator <:+: t) :
    cutFirst? separator t = none := by
  induction t with
  | nil => rfl
  | cons c t ih =>
    have hhead : ¬ separator.isPrefixOf (c :: t) = true := fun hprefix =>
      h (List.isPrefixOf_iff_prefix.mp hprefix).isInfix
    rw [cutFirst?, if_neg hhead, ih fun hspaced => h (List.infix_cons hspaced)]
    rfl

theorem cutFirst?_eq_none_iff {separator : Text} (hsep : separator ≠ []) :
    cutFirst? separator t = none ↔ ¬ separator <:+: t := by
  refine ⟨fun hnone hinfix => ?_, cutFirst?_eq_none⟩
  induction t with
  | nil => exact hsep (List.infix_nil.mp hinfix)
  | cons c t ih =>
    rw [cutFirst?] at hnone
    split at hnone
    · cases hnone
    · rename_i hhead
      rcases List.infix_cons_iff.mp hinfix with hprefix | hinfix
      · exact hhead (List.isPrefixOf_iff_prefix.mpr hprefix)
      · exact ih (Option.map_eq_none_iff.mp hnone) hinfix

theorem cutFirst?_eq_some_iff (hsep : separator ≠ []) :
    cutFirst? separator t = some (before, after) ↔ FirstCut separator t before after := by
  refine ⟨firstCut_of_cutFirst?, fun h => ?_⟩
  cases hcut : cutFirst? separator t with
  | none => exact absurd h.isInfix ((cutFirst?_eq_none_iff hsep).mp hcut)
  | some cut =>
    obtain ⟨rfl, rfl⟩ := (firstCut_of_cutFirst? hcut).unique h
    rfl

theorem split_eq_iff (hsep : separator ≠ []) {pieces : List Text} :
    split separator t = pieces ↔ Pieces separator t pieces := by
  constructor
  · rintro rfl
    -- the rest after the first occurrence is shorter
    induction hlength : t.length using Nat.strongRecOn generalizing t with
    | ind n ih =>
      cases hcut : cutFirst? separator t with
      | none =>
        rw [split_of_cutFirst?_none hcut]
        exact .last ((cutFirst?_eq_none_iff hsep).mp hcut)
      | some cut =>
        obtain ⟨before, after⟩ := cut
        have hfirst := firstCut_of_cutFirst? hcut
        have hshort : after.length < n := by
          have := List.length_pos_iff.mpr hsep
          simp only [← hlength, hfirst.text_eq, List.length_append]
          omega
        rw [split_of_cutFirst?_some hsep hcut]
        exact .cut hfirst (ih _ hshort rfl)
  · intro h
    induction h with
    | last hnone => exact split_of_cutFirst?_none (cutFirst?_eq_none hnone)
    | cut hfirst _ ih =>
      rw [split_of_cutFirst?_some hsep ((cutFirst?_eq_some_iff hsep).mpr hfirst), ih]

end

/-! ## Cutting, then joining -/

section

variable {separator t : Text} {pieces : List Text}

theorem Pieces.ne_nil (h : Pieces separator t pieces) : pieces ≠ [] := by
  cases h with
  | last _ => exact List.cons_ne_nil _ _
  | cut _ _ => exact List.cons_ne_nil _ _

theorem Pieces.intercalate_eq (h : Pieces separator t pieces) :
    separator.intercalate pieces = t := by
  induction h with
  | last _ => exact List.intercalate_singleton
  | cut hfirst hrest ih =>
    obtain ⟨piece, pieces, rfl⟩ := List.exists_cons_of_ne_nil hrest.ne_nil
    rw [List.intercalate_cons_cons, ih, hfirst.text_eq, List.append_assoc]

theorem split_ne_nil (hsep : separator ≠ []) : split separator t ≠ [] :=
  ((split_eq_iff hsep).mp rfl).ne_nil

theorem intercalate_split (hsep : separator ≠ []) :
    separator.intercalate (split separator t) = t :=
  ((split_eq_iff hsep).mp rfl).intercalate_eq

end

/-! ## Cutting at a character -/

/-- A text is cut at the first place where a character stands. -/
theorem cutFirst?_singleton_eq_some_iff {c : Char} {t before after : Text} :
    cutFirst? [c] t = some (before, after) ↔ t = before ++ c :: after ∧ c ∉ before := by
  induction t generalizing before with
  | nil => simp [cutFirst?]
  | cons d t ih =>
    have hhead : [c].isPrefixOf (d :: t) = true ↔ c = d := by simp [List.isPrefixOf]
    rw [cutFirst?]
    by_cases h : c = d
    · rw [if_pos (hhead.mpr h)]
      subst h
      cases before with
      | nil => simp
      | cons e before =>
        refine iff_of_false (by simp) fun hcut => hcut.2 ?_
        rw [(List.cons.inj hcut.1).1]
        exact List.mem_cons_self
    · rw [if_neg (mt hhead.mp h), Option.map_eq_some_iff]
      cases before with
      | nil => simp [Ne.symm h]
      | cons e before =>
        constructor
        · rintro ⟨⟨b, a⟩, hcut, heq⟩
          cases heq
          obtain ⟨rfl, hmem⟩ := ih.mp hcut
          exact ⟨rfl, by simp [h, hmem]⟩
        · rintro ⟨heq, hmem⟩
          obtain ⟨rfl, rfl⟩ := List.cons.inj heq
          exact ⟨(before, after), ih.mpr ⟨rfl, fun hc => hmem (List.mem_cons_of_mem _ hc)⟩, rfl⟩

theorem cutLast?_eq_none {c : Char} {t : Text} (h : c ∉ t) : cutLast? c t = none := by
  cases hcut : cutLast? c t with
  | none => rfl
  | some cut =>
    obtain ⟨rfl, -⟩ := eq_of_cutLast? hcut
    exact absurd (List.mem_append_right _ List.mem_cons_self) h

/-- A text is cut at the last place where a character stands. -/
theorem cutLast?_append {c : Char} {before after : Text} (h : c ∉ after) :
    cutLast? c (before ++ c :: after) = some (before, after) := by
  induction before with
  | nil => rw [List.nil_append, cutLast?, cutLast?_eq_none h, if_pos rfl]
  | cons d before ih => rw [List.cons_append, cutLast?, ih]

/-! ## Joining -/

theorem intercalate_cons (separator piece : Text) (pieces : List Text) :
    separator.intercalate (piece :: pieces) = piece ++ pieces.flatMap (separator ++ ·) := by
  induction pieces generalizing piece with
  | nil => simp
  | cons next pieces ih =>
    rw [List.intercalate_cons_cons, ih next, List.flatMap_cons, List.append_assoc,
      List.append_assoc]

theorem intercalate_concat (separator piece : Text) (pieces : List Text) :
    separator.intercalate (pieces ++ [piece]) = pieces.flatMap (· ++ separator) ++ piece := by
  induction pieces with
  | nil => simp
  | cons first pieces ih =>
    obtain ⟨second, others, hothers⟩ : ∃ second others, pieces ++ [piece] = second :: others :=
      List.exists_cons_of_ne_nil (by simp)
    rw [List.cons_append, hothers, List.intercalate_cons_cons, ← hothers, ih, List.flatMap_cons]
    simp only [List.append_assoc]

/-! ## Joining, then cutting -/

section

variable {word piece rest : Text}

/-- A text with fewer than two spaces has no word between spaces. -/
theorem split_of_count_space_lt (word : Text) {t : Text} (h : t.count ' ' < 2) :
    split (spaced word) t = [t] := by
  refine split_of_cutFirst?_none (cutFirst?_eq_none fun hspaced => ?_)
  have hcount : (spaced word).count ' ' ≤ t.count ' ' := hspaced.sublist.count_le ' '
  rw [spaced, List.count_cons_self, List.count_append, List.count_singleton_self] at hcount
  omega

theorem not_infix_of_not_mem_words (hword : IsWord word) (h : word ∉ words piece) :
    ¬ spaced word <:+: piece ++ [' '] := by
  intro hspaced
  have hmem := mem_words_of_spaced hword hspaced
  rw [words_concat isBlank_space] at hmem
  exact h hmem

/-- Where the word does not end a piece or stand within it, its first occurrence after the piece is
the one that follows the piece at once. -/
theorem not_prefix_of_suffix (hword : IsWord word) (h : ¬ spaced word <:+: piece ++ [' '])
    {tail : Text} (htail : tail <:+ piece) (hne : tail ≠ []) :
    ¬ spaced word <+: tail ++ (spaced word ++ rest) := by
  intro hprefix
  have hends : tail ++ [' '] <+: tail ++ (spaced word ++ rest) :=
    (List.prefix_append_right_inj tail).mpr ⟨word ++ ' ' :: rest, by simp [spaced]⟩
  rcases Nat.lt_or_ge (tail ++ [' ']).length (spaced word).length with hlt | hle
  · -- the space after the piece would stand inside the word
    obtain ⟨c, tail, rfl⟩ := List.exists_cons_of_ne_nil hne
    have hin : (c :: tail) ++ [' '] <+: spaced word :=
      List.prefix_of_prefix_length_le hends hprefix (Nat.le_of_lt hlt)
    have hinner : tail ++ [' '] <+: word ++ [' '] := (List.cons_prefix_cons.mp hin).2
    have hlength : (tail ++ [' ']).length ≤ word.length := by
      simp only [spaced, List.length_append, List.length_cons, List.length_nil] at hlt ⊢
      omega
    have hspace : tail ++ [' '] <+: word :=
      List.prefix_of_prefix_length_le hinner (List.prefix_append word [' ']) hlength
    have hblank : isBlank ' ' = false := hword.2 ' ' (hspace.subset (by simp))
    rw [isBlank_space] at hblank
    cases hblank
  · -- the occurrence ends with the piece and the space after it
    have hin : spaced word <+: tail ++ [' '] := List.prefix_of_prefix_length_le hprefix hends hle
    obtain ⟨front, rfl⟩ := htail
    apply h
    rw [List.append_assoc]
    exact hin.isInfix.trans (List.suffix_append front _).isInfix

theorem cutFirst?_append {separator before after : Text} (hsep : separator ≠ [])
    (h : ∀ tail, tail <:+ before → tail ≠ [] → ¬ separator <+: tail ++ (separator ++ after)) :
    cutFirst? separator (before ++ (separator ++ after)) = some (before, after) := by
  induction before with
  | nil =>
    obtain ⟨c, rest, rfl⟩ := List.exists_cons_of_ne_nil hsep
    have hprefix : (c :: rest).isPrefixOf (c :: (rest ++ after)) = true :=
      List.isPrefixOf_iff_prefix.mpr (List.prefix_append (c :: rest) after)
    rw [List.nil_append, List.cons_append, cutFirst?, if_pos hprefix, ← List.cons_append,
      List.drop_left]
  | cons c before ih =>
    have hhead : ¬ separator.isPrefixOf (c :: (before ++ (separator ++ after))) = true :=
      fun hprefix => h (c :: before) (List.suffix_refl _) (List.cons_ne_nil _ _)
        (List.isPrefixOf_iff_prefix.mp hprefix)
    rw [List.cons_append, cutFirst?, if_neg hhead,
      ih fun tail htail => h tail (htail.trans (List.suffix_cons c before))]
    rfl

theorem cutFirst?_spaced (hword : IsWord word) (h : ¬ spaced word <:+: piece ++ [' ']) :
    cutFirst? (spaced word) (piece ++ (spaced word ++ rest)) = some (piece, rest) :=
  cutFirst?_append (spaced_ne_nil word) fun _ htail => not_prefix_of_suffix hword h htail

theorem split_intercalate (hword : IsWord word) {pieces : List Text} (hne : pieces ≠ [])
    (h : ∀ piece ∈ pieces, word ∉ words piece) :
    split (spaced word) ((spaced word).intercalate pieces) = pieces := by
  induction pieces with
  | nil => exact absurd rfl hne
  | cons piece pieces ih =>
    have hpiece := h piece List.mem_cons_self
    cases pieces with
    | nil =>
      rw [List.intercalate_singleton]
      exact split_of_cutFirst?_none
        (cutFirst?_eq_none fun hspaced => hpiece (mem_words_of_spaced hword hspaced))
    | cons next pieces =>
      have hcut : cutFirst? (spaced word)
          (piece ++ (spaced word ++ (spaced word).intercalate (next :: pieces))) =
            some (piece, (spaced word).intercalate (next :: pieces)) :=
        cutFirst?_spaced hword (not_infix_of_not_mem_words hword hpiece)
      rw [List.intercalate_cons_cons, List.append_assoc,
        split_of_cutFirst?_some (spaced_ne_nil word) hcut,
        ih (List.cons_ne_nil _ _) fun p hp => h p (List.mem_cons_of_mem piece hp)]

/-- The words of what is joined are those of the pieces and the word between them. -/
theorem mem_words_intercalate (hword : IsWord word) {pieces : List Text} {w : Text}
    (h : w ∈ words ((spaced word).intercalate pieces)) :
    w = word ∨ ∃ piece ∈ pieces, w ∈ words piece := by
  induction pieces with
  | nil => cases h
  | cons piece pieces ih =>
    cases pieces with
    | nil =>
      rw [List.intercalate_singleton] at h
      exact .inr ⟨piece, List.mem_cons_self, h⟩
    | cons next pieces =>
      rw [List.intercalate_cons_cons, List.append_assoc, words_append_spaced hword, List.mem_append,
        List.mem_cons] at h
      rcases h with h | h | h
      · exact .inr ⟨piece, List.mem_cons_self, h⟩
      · exact .inl h
      · rcases ih h with h | ⟨other, hother, h⟩
        · exact .inl h
        · exact .inr ⟨other, List.mem_cons_of_mem piece hother, h⟩

end

end PreferenceLogic.Text
