import Mathlib.Data.List.DropRight
import PreferenceLogic.Text.Blank

/-!
# Trimmed texts

A text is trimmed when neither its first nor its last character is blank. Trimming gives a trimmed
text, so it changes nothing a second time.

Results:
* `Text.trimStart_eq_self_iff`, `Text.trimEnd_eq_self_iff`: what trimming at one end leaves alone.
* `Text.trim_trim`: trimming a second time changes nothing.
* `Text.trim_iff`: a property that a blank at either end does not change is not changed by trimming.
-/

namespace PreferenceLogic.Text

theorem trimEnd_eq_rdropWhile (t : Text) : trimEnd t = t.rdropWhile isBlank := rfl

theorem trimStart_eq_self_iff {t : Text} :
    trimStart t = t ↔ ∀ c, t.head? = some c → isBlank c = false := by
  cases t with
  | nil => simp [trimStart]
  | cons d t =>
    rw [trimStart, List.dropWhile_eq_self_iff]
    simp

theorem trimEnd_eq_self_iff {t : Text} :
    trimEnd t = t ↔ ∀ c, t.getLast? = some c → isBlank c = false := by
  cases t using List.reverseRecOn with
  | nil => simp [trimEnd]
  | append_singleton t d =>
    rw [trimEnd_eq_rdropWhile, List.rdropWhile_eq_self_iff]
    simp

theorem trimStart_trimStart (t : Text) : trimStart (trimStart t) = trimStart t :=
  List.dropWhile_idempotent _ t

theorem trimEnd_trimEnd (t : Text) : trimEnd (trimEnd t) = trimEnd t :=
  List.rdropWhile_idempotent _ t

theorem trimEnd_prefix (t : Text) : trimEnd t <+: t := List.rdropWhile_prefix _ t

theorem trim_sublist (t : Text) : (trim t).Sublist t := by
  have hend := trimEnd_prefix (trimStart t)
  have hstart : trimStart t <:+ t := List.dropWhile_suffix isBlank
  exact hend.sublist.trans hstart.sublist

/-- Trimming the end leaves the first character, or nothing. -/
theorem trimStart_trimEnd {t : Text} (h : trimStart t = t) : trimStart (trimEnd t) = trimEnd t := by
  rw [trimStart_eq_self_iff] at h ⊢
  intro c hc
  obtain ⟨rest, hrest⟩ := trimEnd_prefix t
  apply h
  rw [← hrest, List.head?_append, hc]
  rfl

theorem trimStart_trim (t : Text) : trimStart (trim t) = trim t :=
  trimStart_trimEnd (trimStart_trimStart t)

theorem trimEnd_trim (t : Text) : trimEnd (trim t) = trim t := trimEnd_trimEnd _

theorem trim_trim (t : Text) : trim (trim t) = trim t := by
  rw [trim, trimStart_trim, trimEnd_trim]

theorem trimStart_of_trim_eq {t : Text} (h : trim t = t) : trimStart t = t := by
  rw [← h, trimStart_trim]

theorem trimEnd_of_trim_eq {t : Text} (h : trim t = t) : trimEnd t = t := by
  rw [← h, trimEnd_trim]

theorem trim_iff {P : Text → Prop} (hcons : ∀ c t, isBlank c = true → (P (c :: t) ↔ P t))
    (hconcat : ∀ t c, isBlank c = true → (P (t ++ [c]) ↔ P t)) (t : Text) : P (trim t) ↔ P t := by
  have hstart : P (trimStart t) ↔ P t := by
    induction t with
    | nil => rfl
    | cons c t ih =>
      rw [trimStart, List.dropWhile_cons]
      split
      · rename_i hc
        exact ih.trans (hcons c t hc).symm
      · rfl
  have hend : ∀ s, P (trimEnd s) ↔ P s := by
    intro s
    induction s using List.reverseRecOn with
    | nil => rfl
    | append_singleton s c ih =>
      rw [trimEnd_eq_rdropWhile, List.rdropWhile_concat]
      split
      · rename_i hc
        exact ih.trans (hconcat s c hc).symm
      · rfl
  exact (hend _).trans hstart

end PreferenceLogic.Text
