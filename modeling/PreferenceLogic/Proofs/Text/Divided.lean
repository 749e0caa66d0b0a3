import Mathlib.Data.List.Chain
import PreferenceLogic.Proofs.Text.Joined

/-!
# Words that divide a text

A separator that is a word between spaces divides a text into pieces. If no piece is blank or has
the word itself, then the word stands between other words only: not at the ends of the text, and not
beside itself. This is seen from the words of the text. A text that does not end with the word can
be joined to another one, and what is joined is cut as the two texts are.

Definitions:
* `Text.Divides`: a word stands between other words only.

Results:
* `Text.split_append_spaced`: the pieces of two texts that are joined.
* `Text.divides_intercalate`: the word divides pieces that are not blank and do not have it.
* `Text.Divides.getLast?_ne_of_append`: before the word there stands another one.
* `Text.trim_intercalate`: trimmed texts that are joined are a trimmed text.
-/

namespace PreferenceLogic.Text

variable {word s t : Text}

/-! ## Cutting two texts -/

/-- What follows a text does not change its first occurrence of a separator. -/
theorem cutFirst?_append_of_some {separator before after : Text}
    (h : cutFirst? separator s = some (before, after)) (t : Text) :
    cutFirst? separator (s ++ t) = some (before, after ++ t) := by
  induction s generalizing before with
  | nil => cases h
  | cons c s ih =>
    rw [cutFirst?] at h
    rw [List.cons_append, cutFirst?]
    split at h
    · rename_i hhead
      have hstarts : separator <+: c :: s := List.isPrefixOf_iff_prefix.mp hhead
      have hlonger : separator.isPrefixOf (c :: (s ++ t)) = true :=
        List.isPrefixOf_iff_prefix.mpr (hstarts.trans (List.prefix_append (c :: s) t))
      cases h
      rw [if_pos hlonger, ← List.cons_append, List.drop_append_of_le_length hstarts.length_le]
    · rename_i hhead
      obtain ⟨⟨b, a⟩, hcut, heq⟩ := Option.map_eq_some_iff.mp h
      cases heq
      -- the occurrence fits into the text, so it does not start any earlier in the longer one
      have hlength : separator.length ≤ (c :: s).length := by
        rw [eq_of_cutFirst? hcut]
        simp only [List.length_cons, List.length_append]
        omega
      have hlonger : ¬ separator.isPrefixOf (c :: (s ++ t)) = true := fun hprefix =>
        hhead (List.isPrefixOf_iff_prefix.mpr (List.prefix_of_prefix_length_le
          (List.isPrefixOf_iff_prefix.mp hprefix) (List.prefix_append (c :: s) t) hlength))
      rw [if_neg hlonger, ih hcut]
      rfl

/-- A word that is not the last one of a text is not found across its end. -/
theorem not_infix_of_getLast? (hword : IsWord word) (h : ¬ spaced word <:+: t)
    (hlast : (words t).getLast? ≠ some word) : ¬ spaced word <:+: t ++ [' '] := by
  rintro ⟨before, after, heq⟩
  rcases List.eq_nil_or_concat' after with rfl | ⟨after, c, rfl⟩
  · have ht : before ++ ' ' :: word = t := by
      rw [List.append_nil, spaced, ← List.cons_append, ← List.append_assoc] at heq
      exact List.append_cancel_right heq
    apply hlast
    rw [← ht, words_append_cons isBlank_space, hword.words_eq, List.getLast?_concat]
  · rw [← List.append_assoc] at heq
    exact h ⟨before, after, (List.append_inj' heq rfl).1⟩

/-- A text that does not end with the word is joined to another one and cut again. -/
theorem split_append_spaced (hword : IsWord word) (hlast : (words s).getLast? ≠ some word)
    (t : Text) :
    split (spaced word) (s ++ (spaced word ++ t)) =
      split (spaced word) s ++ split (spaced word) t := by
  -- by induction on the length: what follows the first occurrence is shorter
  induction hlength : s.length using Nat.strongRecOn generalizing s with
  | ind n ih =>
    cases hcut : cutFirst? (spaced word) s with
    | none =>
      have hinfix := (cutFirst?_eq_none_iff (spaced_ne_nil word)).mp hcut
      rw [split_of_cutFirst?_none hcut, split_of_cutFirst?_some (spaced_ne_nil word)
        (cutFirst?_spaced hword (not_infix_of_getLast? hword hinfix hlast))]
      rfl
    | some cut =>
      obtain ⟨before, after⟩ := cut
      have hs := eq_of_cutFirst? hcut
      have hshort : after.length < n := by
        simp only [← hlength, hs, spaced, List.length_append, List.length_cons]
        omega
      have hafter : (words after).getLast? ≠ some word := by
        intro hend
        apply hlast
        rw [hs, List.append_assoc, words_append_spaced hword, List.getLast?_append,
          List.getLast?_cons, hend]
        rfl
      rw [split_of_cutFirst?_some (spaced_ne_nil word) hcut,
        split_of_cutFirst?_some (spaced_ne_nil word) (cutFirst?_append_of_some hcut _),
        ih _ hshort hafter rfl]
      rfl

/-! ## Words between other words -/

/-- A word stands between other words only: not first, not last, and not beside itself. -/
structure Divides (word : Text) (found : List Text) : Prop where
  ne_nil : found ≠ []
  head?_ne : found.head? ≠ some word
  getLast?_ne : found.getLast? ≠ some word
  isChain : found.IsChain fun a b => a ≠ word ∨ b ≠ word

theorem divides_of_not_mem {found : List Text} (hne : found ≠ []) (h : word ∉ found) :
    Divides word found where
  ne_nil := hne
  head?_ne hhead := h (List.mem_of_head? hhead)
  getLast?_ne hlast := h (List.mem_of_getLast? hlast)
  isChain := (List.pairwise_of_forall_mem_list fun _ ha _ _ => .inl fun heq => h (heq ▸ ha)).isChain

theorem Divides.append_cons {before after : List Text} (hbefore : Divides word before)
    (hafter : Divides word after) : Divides word (before ++ word :: after) where
  ne_nil := by simp
  head?_ne := by
    obtain ⟨a, rest, rfl⟩ := List.exists_cons_of_ne_nil hbefore.ne_nil
    exact hbefore.head?_ne
  getLast?_ne := by
    obtain ⟨init, a, rfl⟩ := (List.eq_nil_or_concat' after).resolve_left hafter.ne_nil
    rw [← List.cons_append, ← List.append_assoc, List.getLast?_concat]
    have hlast := hafter.getLast?_ne
    rwa [List.getLast?_concat] at hlast
  isChain := by
    refine hbefore.isChain.append (List.isChain_cons.mpr ⟨fun b hb => .inr ?_, hafter.isChain⟩)
      fun a ha _ _ => .inl ?_
    · rintro rfl
      exact hafter.head?_ne hb
    · rintro rfl
      exact hbefore.getLast?_ne ha

/-- Before the word there stands another one. -/
theorem Divides.getLast?_ne_of_append {before after : List Text}
    (h : Divides word (before ++ word :: after)) : before.getLast? ≠ some word := by
  intro hlast
  obtain ⟨-, -, hpair⟩ := List.isChain_append.mp h.isChain
  rcases hpair word hlast word rfl with hne | hne <;> exact hne rfl

/-- The word divides pieces that are not blank and do not have it. -/
theorem divides_intercalate (hword : IsWord word) {pieces : List Text} (hne : pieces ≠ [])
    (h : ∀ piece ∈ pieces, words piece ≠ [] ∧ word ∉ words piece) :
    Divides word (words ((spaced word).intercalate pieces)) := by
  induction pieces with
  | nil => exact absurd rfl hne
  | cons piece pieces ih =>
    obtain ⟨hpiece, hpieces⟩ := List.forall_mem_cons.mp h
    have hfirst := divides_of_not_mem hpiece.1 hpiece.2
    cases pieces with
    | nil => rwa [List.intercalate_singleton]
    | cons next pieces =>
      rw [List.intercalate_cons_cons, List.append_assoc, words_append_spaced hword]
      exact hfirst.append_cons (ih (List.cons_ne_nil _ _) hpieces)

/-! ## Trimmed texts -/

/-- Trimmed texts that are joined are a trimmed text. -/
theorem trim_intercalate (separator : Text) {pieces : List Text}
    (h : ∀ piece ∈ pieces, piece ≠ [] ∧ trim piece = piece) :
    trim (separator.intercalate pieces) = separator.intercalate pieces := by
  induction pieces with
  | nil => rfl
  | cons piece pieces ih =>
    obtain ⟨⟨hne, htrim⟩, hpieces⟩ := List.forall_mem_cons.mp h
    cases pieces with
    | nil => rwa [List.intercalate_singleton]
    | cons next pieces =>
      have hjoined := ih hpieces
      have hnonempty : separator.intercalate (next :: pieces) ≠ [] := by
        rw [intercalate_cons]
        exact List.append_ne_nil_of_left_ne_nil (hpieces next List.mem_cons_self).1 _
      have hrest := not_blank_of_trim_eq hnonempty hjoined
      rw [List.intercalate_cons_cons, List.append_assoc,
        trim_append (not_blank_of_trim_eq hne htrim) (not_blank_append hrest),
        trimEnd_append hrest, trimStart_of_trim_eq htrim, trimEnd_of_trim_eq hjoined]

end PreferenceLogic.Text
