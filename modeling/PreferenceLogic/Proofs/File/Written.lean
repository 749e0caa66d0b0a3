import PreferenceLogic.Proofs.File.Layout
import PreferenceLogic.Proofs.Text.Joined

/-!
# Files written line by line

What is read of a file are its content lines. They are trimmed, they are neither empty nor comments,
and no line ends within them. Lines of this kind that are written to a file are read again as they
are, whether or not the last one ends.

Definitions:
* `File.IsContentLine`: what a content line is like.
* `Text.Writes`: a text consists of some lines.

Results:
* `File.isContentLine_of_mem`: the content lines of a file are of this kind.
* `File.contentLines_encode`: the content lines of a file that holds a text.
* `File.contentLines_of_writes`: the content lines of a file that is written line by line.
-/

namespace PreferenceLogic

/-! ## Texts of lines -/

namespace Text

/-- A text consists of some lines. Each of them ends, the last one perhaps with the text. -/
def Writes (t : Text) (written : List Text) : Prop :=
  t = written.flatMap (· ++ ['\n']) ∨ t = ['\n'].intercalate written

theorem lines_of_writes {t : Text} {written : List Text} (ht : Writes t written)
    (hne : written ≠ []) (h : ∀ line ∈ written, '\n' ∉ line) :
    lines t = written ++ [[]] ∨ lines t = written := by
  rcases ht with rfl | rfl
  · exact .inl (lines_flatMap h)
  · obtain ⟨init, last, rfl⟩ := (List.eq_nil_or_concat' written).resolve_left hne
    rw [List.forall_mem_append, List.forall_mem_singleton] at h
    right
    rw [intercalate_concat, lines_flatMap_append h.1, lines_of_not_mem h.2]

end Text

namespace File

/-! ## Content lines -/

/-- A line that says something and is written without blanks around it. -/
structure IsContentLine (line : Text) : Prop where
  trim_eq : Text.trim line = line
  not_silent : isSilent line = false
  newline_not_mem : '\n' ∉ line

theorem isContentLine_of_mem {input : List UInt8} {line : Text} (h : line ∈ contentLines input) :
    IsContentLine line := by
  obtain ⟨hline, hspeaks⟩ := List.mem_filter.mp h
  obtain ⟨bytes, hbytes, htrim⟩ := List.mem_filterMap.mp hline
  obtain ⟨text, htext, rfl⟩ := Option.map_eq_some_iff.mp htrim
  refine ⟨Text.trim_trim text, (Bool.not_eq_true' _).mp hspeaks, fun hmem => ?_⟩
  have hencode := Utf8.newline_mem_encode ((Text.trim_sublist text).subset hmem)
  rw [← Utf8.decode?_eq_some_iff.mp htext] at hencode
  exact Utf8.newline_not_mem_of_mem_lines hbytes hencode

theorem IsContentLine.content_eq {line : Text} (h : IsContentLine line) :
    content line = [line] := by
  rw [content, h.trim_eq, h.not_silent]
  rfl

theorem contentOf_map_encode (written : List Text) :
    contentOf (written.map Utf8.encode) = written.flatMap content := by
  induction written with
  | nil => rfl
  | cons line rest ih =>
    rw [List.map_cons, contentOf_cons (Utf8.decode?_encode line), ih, List.flatMap_cons, content]
    split <;> rfl

theorem contentLines_encode (t : Text) :
    contentLines (Utf8.encode t) = (Text.lines t).flatMap content := by
  obtain ⟨written, hwritten, hlines | hlines⟩ := Utf8.exists_lines_encode t
  · rw [contentLines, hwritten, contentOf_map_encode, hlines]
  · rw [contentLines, hwritten, contentOf_map_encode, hlines, List.flatMap_append]
    exact (List.append_nil _).symm

/-- Content lines that are written are read again. -/
theorem contentLines_of_writes {t : Text} {written : List Text} (ht : Text.Writes t written)
    (h : ∀ line ∈ written, IsContentLine line) : contentLines (Utf8.encode t) = written := by
  by_cases hne : written = []
  · subst hne
    obtain rfl : t = [] := by rcases ht with rfl | rfl <;> rfl
    rfl
  · have hcontent : written.flatMap content = written := by
      rw [List.flatMap_congr fun line hline => (h line hline).content_eq]
      exact List.flatMap_singleton' written
    rw [contentLines_encode]
    rcases Text.lines_of_writes ht hne fun line hline => (h line hline).newline_not_mem with
      hlines | hlines
    · rw [hlines, List.flatMap_append, hcontent]
      exact List.append_nil _
    · rw [hlines, hcontent]

end File

end PreferenceLogic
