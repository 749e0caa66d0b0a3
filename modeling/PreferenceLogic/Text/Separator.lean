import PreferenceLogic.Text.Blank

/-!
# Cutting texts at separators

A separator is a fixed text that is not empty. Its occurrences are found from left to right, and
a character belongs to one occurrence at most.

Definitions:
* `Text.split`: the pieces between the occurrences of a separator.
* `Text.cutFirst?`, `Text.cutLast?`: what stands before and after one occurrence.
* `Text.dropEnding`: a text without a given ending.

Results:
* `Text.split_of_cutFirst?_none`, `Text.split_of_cutFirst?_some`: the pieces are found by cutting
  at the first occurrence again and again.
* `Text.eq_of_cutFirst?`, `Text.eq_of_cutLast?`: a cut loses nothing but the separator.
-/

namespace PreferenceLogic.Text

/-! ## All occurrences -/

/-- The pieces of a text whose first `pending` characters still belong to an occurrence of the
separator that was found before them. -/
def splitAfter (separator : Text) : Nat → Text → List Text
  | _, [] => [[]]
  | pending + 1, _ :: t => splitAfter separator pending t
  | 0, c :: t =>
    if separator.isPrefixOf (c :: t) then [] :: splitAfter separator (separator.length - 1) t
    else match splitAfter separator 0 t with
      | [] => [[c]]
      | piece :: pieces => (c :: piece) :: pieces

/-- The pieces between the occurrences of a separator. One more piece than occurrences. -/
def split (separator t : Text) : List Text := splitAfter separator 0 t

theorem splitAfter_eq_split_drop (separator : Text) (pending : Nat) (t : Text) :
    splitAfter separator pending t = split separator (t.drop pending) := by
  induction t generalizing pending with
  | nil => simp [split, splitAfter]
  | cons c t ih =>
    cases pending with
    | zero => rfl
    | succ pending => simp [splitAfter, ih]

/-! ## One occurrence -/

/-- What stands before and after the first occurrence of a separator. -/
def cutFirst? (separator : Text) : Text → Option (Text × Text)
  | [] => none
  | c :: t =>
    if separator.isPrefixOf (c :: t) then some ([], (c :: t).drop separator.length)
    else (cutFirst? separator t).map fun (before, after) => (c :: before, after)

/-- What stands before and after the last occurrence of a character. -/
def cutLast? (separator : Char) : Text → Option (Text × Text)
  | [] => none
  | c :: t =>
    match cutLast? separator t with
    | some (before, after) => some (c :: before, after)
    | none => if c = separator then some ([], t) else none

theorem eq_of_cutFirst? {separator t before after : Text}
    (h : cutFirst? separator t = some (before, after)) : t = before ++ separator ++ after := by
  induction t generalizing before with
  | nil => simp [cutFirst?] at h
  | cons c t ih =>
    simp only [cutFirst?] at h
    split at h
    · rename_i hp
      obtain ⟨rest, hrest⟩ := List.isPrefixOf_iff_prefix.1 hp
      simp only [Option.some.injEq, Prod.mk.injEq] at h
      obtain ⟨rfl, rfl⟩ := h
      simp [← hrest]
    · obtain ⟨⟨b, a⟩, hba, heq⟩ := Option.map_eq_some_iff.1 h
      simp only [Prod.mk.injEq] at heq
      obtain ⟨rfl, rfl⟩ := heq
      simp [ih hba]

/-- A character that occurs has a last occurrence. -/
theorem cutLast?_ne_none {separator : Char} {t : Text} (h : separator ∈ t) :
    cutLast? separator t ≠ none := by
  induction t with
  | nil => simp at h
  | cons c t ih =>
    simp only [cutLast?]
    split
    · simp
    · rename_i hnone
      rcases List.mem_cons.1 h with rfl | h
      · simp
      · exact absurd hnone (ih h)

theorem eq_of_cutLast? {separator : Char} {t before after : Text}
    (h : cutLast? separator t = some (before, after)) :
    t = before ++ separator :: after ∧ separator ∉ after := by
  induction t generalizing before after with
  | nil => simp [cutLast?] at h
  | cons c t ih =>
    simp only [cutLast?] at h
    split at h
    · rename_i b a hba
      simp only [Option.some.injEq, Prod.mk.injEq] at h
      obtain ⟨rfl, rfl⟩ := h
      obtain ⟨rfl, hnot⟩ := ih hba
      exact ⟨rfl, hnot⟩
    · rename_i hnone
      split at h
      · rename_i hc
        simp only [Option.some.injEq, Prod.mk.injEq] at h
        obtain ⟨rfl, rfl⟩ := h
        subst hc
        exact ⟨rfl, fun hmem => cutLast?_ne_none hmem hnone⟩
      · simp at h

theorem split_of_cutFirst?_none {separator t : Text} (h : cutFirst? separator t = none) :
    split separator t = [t] := by
  induction t with
  | nil => rfl
  | cons c t ih =>
    simp only [cutFirst?] at h
    split at h
    · simp at h
    · rename_i hp
      have hsplit := ih (by simpa using h)
      simp only [split] at hsplit
      simp [split, splitAfter, hp, hsplit]

theorem split_of_cutFirst?_some {separator t before after : Text} (hsep : separator ≠ [])
    (h : cutFirst? separator t = some (before, after)) :
    split separator t = before :: split separator after := by
  induction t generalizing before with
  | nil => simp [cutFirst?] at h
  | cons c t ih =>
    simp only [cutFirst?] at h
    split at h
    · rename_i hp
      simp only [Option.some.injEq, Prod.mk.injEq] at h
      obtain ⟨rfl, rfl⟩ := h
      obtain ⟨d, rest, rfl⟩ := List.exists_cons_of_ne_nil hsep
      rw [split, splitAfter, if_pos hp, splitAfter_eq_split_drop]
      simp
    · rename_i hp
      obtain ⟨⟨b, a⟩, hba, heq⟩ := Option.map_eq_some_iff.1 h
      simp only [Prod.mk.injEq] at heq
      obtain ⟨rfl, rfl⟩ := heq
      have hsplit := ih hba
      simp only [split] at hsplit
      rw [split, splitAfter, if_neg hp, hsplit]
      rfl

/-! ## Endings -/

/-- The text without the ending, if it ends so; otherwise the text itself. -/
def dropEnding (ending t : Text) : Text :=
  if ending.isSuffixOf t then t.take (t.length - ending.length) else t

@[simp] theorem dropEnding_append (ending t : Text) : dropEnding ending (t ++ ending) = t := by
  simp [dropEnding]

/-- The text between two quotation marks. -/
def quoted (t : Text) : Text := "'".toList ++ t ++ "'".toList

end PreferenceLogic.Text
