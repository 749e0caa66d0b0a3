import Mathlib.Data.List.Count
import PreferenceLogic.Proofs.Text.Words
import PreferenceLogic.Text.Utf8

/-!
# Lines and line ends

The lines of an input that stops at a line end are as many as its line ends. An input that is not
empty has a first line, so an input can be gone through line by line. The byte that ends a line is
no part of the encoding of another character, so the lines of a written text are those that were
written.

Definitions:
* `Text.lines`: the lines of a text.
* `Text.IsLine`: a line of a text, and what stands before and after it.
* `Utf8.lineEnds`: how many lines end in an input.
* `Utf8.HasLine`: a line of an input, and what stands before and after it.
* `Utf8.Holds`: an input that holds a single line with a given text.

Results:
* `Text.lines_flatMap`: a text that is written line by line has these lines.
* `Text.IsLine.exists_lines`: a line can be replaced without a change of the others.
* `Utf8.length_lines`: the lines of an input that stops at a line end.
* `Utf8.exists_firstLine`: an input that is not empty has a first line.
* `Utf8.decode?_eq_some_iff`: a text is read from its own bytes only.
* `Utf8.exists_lines_encode`: the lines of a written text are written lines.
* `Utf8.lines_of_holds`: an input that holds a single line.
-/

namespace PreferenceLogic

namespace Text

/-! ## Lines of texts -/

/-- The lines of a text. The last one is empty if the text stops at a line end. -/
def lines (t : Text) : List Text := t.splitOn '\n'

/-- A text has a line, with what stands before and after it. -/
structure IsLine (before line after : Text) : Prop where
  start : before = [] ∨ before.getLast? = some '\n'
  newline_not_mem : '\n' ∉ line
  stop : after = [] ∨ after.head? = some '\n'

theorem lines_append_cons (s t : Text) : lines (s ++ '\n' :: t) = lines s ++ lines t :=
  List.splitOn_append_cons_self s t

theorem lines_of_not_mem {t : Text} (h : '\n' ∉ t) : lines t = [t] :=
  List.splitOn_eq_singleton h

/-- What is written line by line before a text are the lines above those of the text. -/
theorem lines_flatMap_append {written : List Text} (h : ∀ line ∈ written, '\n' ∉ line) (t : Text) :
    lines (written.flatMap (· ++ ['\n']) ++ t) = written ++ lines t := by
  induction written with
  | nil => rfl
  | cons line written ih =>
    rw [List.forall_mem_cons] at h
    rw [List.flatMap_cons, List.append_assoc, List.append_assoc, List.singleton_append,
      lines_append_cons, lines_of_not_mem h.1, ih h.2]
    rfl

/-- A text that is written line by line has these lines. -/
theorem lines_flatMap {written : List Text} (h : ∀ line ∈ written, '\n' ∉ line) :
    lines (written.flatMap (· ++ ['\n'])) = written ++ [[]] := by
  have hlines := lines_flatMap_append h []
  rwa [List.append_nil] at hlines

/-- What stands before a line are the lines above it. -/
theorem exists_lines_append {before : Text}
    (h : before = [] ∨ before.getLast? = some '\n') :
    ∃ above, ∀ t, lines (before ++ t) = above ++ lines t := by
  rcases h with rfl | h
  · exact ⟨[], fun t => rfl⟩
  · obtain ⟨init, rfl⟩ := List.getLast?_eq_some_iff.mp h
    refine ⟨lines init, fun t => ?_⟩
    rw [List.append_assoc, List.singleton_append, lines_append_cons]

/-- A line can be replaced by another one, with the same lines above and below. -/
theorem IsLine.exists_lines {before line after : Text} (h : IsLine before line after) :
    ∃ above below, ∀ t, '\n' ∉ t → lines (before ++ t ++ after) = above ++ t :: below := by
  obtain ⟨above, habove⟩ := exists_lines_append h.start
  rcases h.stop with rfl | hafter
  · refine ⟨above, [], fun t ht => ?_⟩
    rw [List.append_nil, habove, lines_of_not_mem ht]
  · obtain ⟨rest, rfl⟩ := List.head?_eq_some_iff.mp hafter
    refine ⟨above, lines rest, fun t ht => ?_⟩
    rw [List.append_assoc, habove, lines_append_cons, lines_of_not_mem ht]
    rfl

/-- What stands before a line end stops with a line. -/
theorem exists_isLine (before after : Text) :
    ∃ start line, before = start ++ line ∧ IsLine start line ('\n' :: after) := by
  by_cases hmem : '\n' ∈ before.reverse
  · obtain ⟨line, start, hsplit, hline⟩ := List.eq_append_cons_of_mem hmem
    have hbefore : before = (start.reverse ++ ['\n']) ++ line.reverse := by
      rw [← List.reverse_reverse before, hsplit]
      simp
    exact ⟨_, _, hbefore, .inr List.getLast?_concat, fun h => hline (List.mem_reverse.mp h),
      .inr rfl⟩
  · exact ⟨[], before, rfl, .inl rfl, fun h => hmem (List.mem_reverse.mpr h), .inr rfl⟩

end Text

namespace Utf8

variable {x y input : List UInt8}

/-! ## Line ends -/

/-- The number of lines that end in an input. -/
def lineEnds (input : List UInt8) : Nat := input.count newline

theorem lineEnds_append (x y : List UInt8) : lineEnds (x ++ y) = lineEnds x + lineEnds y :=
  List.count_append

theorem Complete.append (hx : Complete x) (hy : Complete y) : Complete (x ++ y) := by
  rcases hy with rfl | hy
  · rwa [List.append_nil]
  · right
    rw [List.getLast?_append, hy]
    rfl

theorem lines_cons_newline (rest : List UInt8) : lines (newline :: rest) = [] :: lines rest := by
  rw [lines, if_pos rfl]

theorem lines_of_not_mem (h : newline ∉ x) (hne : x ≠ []) : lines x = [x] := by
  induction x with
  | nil => exact absurd rfl hne
  | cons b x ih =>
    rw [List.mem_cons, not_or] at h
    rw [lines, if_neg (Ne.symm h.1)]
    by_cases hx : x = []
    · rw [hx]
      rfl
    · rw [ih h.2 hx]

/-- The first line ends with the first of the bytes that end lines. -/
theorem lines_append_newline (h : newline ∉ x) (rest : List UInt8) :
    lines (x ++ newline :: rest) = x :: lines rest := by
  induction x with
  | nil => exact lines_cons_newline rest
  | cons b x ih =>
    rw [List.mem_cons, not_or] at h
    rw [List.cons_append, lines, if_neg (Ne.symm h.1), ih h.2]

/-- No line has a line end within. -/
theorem newline_not_mem_of_mem_lines {line : List UInt8} (h : line ∈ lines x) :
    newline ∉ line := by
  induction x generalizing line with
  | nil => cases h
  | cons b x ih =>
    by_cases hb : b = newline
    · rw [hb, lines_cons_newline, List.mem_cons] at h
      rcases h with rfl | h
      · exact List.not_mem_nil
      · exact ih h
    · rw [lines, if_neg hb] at h
      split at h
      · rw [List.mem_singleton] at h
        simpa [h] using Ne.symm hb
      · rename_i first others hlines
        rw [hlines] at ih
        rw [List.mem_cons] at h
        rcases h with rfl | h
        · rw [List.mem_cons, not_or]
          exact ⟨Ne.symm hb, ih List.mem_cons_self⟩
        · exact ih (List.mem_cons_of_mem _ h)

/-- There are as many lines as line ends. -/
theorem length_lines (h : Complete x) : (lines x).length = lineEnds x := by
  induction x with
  | nil => rfl
  | cons b x ih =>
    by_cases hb : b = newline
    · subst hb
      rw [lines_cons_newline, List.length_cons, lineEnds, List.count_cons_self]
      by_cases hx : x = []
      · rw [hx]
        rfl
      · rw [ih (h.tail hx), lineEnds]
    · have hx : x ≠ [] := by
        rintro rfl
        rcases h with h | h
        · cases h
        · exact hb (Option.some.inj h)
      obtain ⟨line, others, hlines⟩ := List.exists_cons_of_ne_nil (lines_ne_nil hx)
      have hlength := ih (h.tail hx)
      rw [hlines] at hlength
      rw [lines, if_neg hb, hlines, lineEnds, List.count_cons_of_ne hb]
      exact hlength

/-! ## A line and what stands around it -/

/-- An input has a line, with what stands before and after it. Only the last line of an input may
lack the byte that ends it. -/
structure HasLine (input before line after : List UInt8) : Prop where
  eq_append : input = before ++ (line ++ after)
  complete_before : Complete before
  ne_nil : line ≠ []
  newline_not_mem : newline ∉ line.dropLast
  complete_line : Complete line ∨ after = []

theorem exists_firstLine (h : input ≠ []) : ∃ line after, HasLine input [] line after := by
  by_cases hmem : newline ∈ input
  · obtain ⟨content, after, rfl, hcontent⟩ := List.eq_append_cons_of_mem hmem
    refine ⟨content ++ [newline], after, ?_, .inl rfl, by simp, ?_, .inl (.inr ?_)⟩
    · rw [List.nil_append, List.append_assoc, List.singleton_append]
    · rwa [List.dropLast_concat]
    · exact List.getLast?_concat
  · refine ⟨input, [], by simp, .inl rfl, h, fun hlast => hmem ?_, .inr rfl⟩
    exact List.dropLast_subset input hlast

/-- A line of what follows a complete input is a line of both together. -/
theorem HasLine.append {before line after : List UInt8} (h : HasLine y before line after)
    (hx : Complete x) : HasLine (x ++ y) (x ++ before) line after where
  eq_append := by rw [h.eq_append, List.append_assoc]
  complete_before := hx.append h.complete_before
  ne_nil := h.ne_nil
  newline_not_mem := h.newline_not_mem
  complete_line := h.complete_line

/-- A line is a single one, whether or not it lacks the byte that ends it. -/
theorem HasLine.lines_eq {before line after : List UInt8} (h : HasLine input before line after) :
    ∃ content, lines line = [content] := by
  have hsplit := List.dropLast_concat_getLast h.ne_nil
  by_cases hlast : line.getLast h.ne_nil = newline
  · refine ⟨line.dropLast, ?_⟩
    rw [hlast] at hsplit
    rw [← hsplit, lines_append_newline (hsplit.symm ▸ h.newline_not_mem), List.dropLast_concat]
    rfl
  · refine ⟨line, lines_of_not_mem (fun hmem => ?_) h.ne_nil⟩
    rw [← hsplit, List.mem_append, List.mem_singleton] at hmem
    exact hmem.elim h.newline_not_mem fun heq => hlast heq.symm

/-! ## Written texts -/

/-- Only the newline character is encoded with the byte that ends a line. -/
theorem newline_not_mem_utf8EncodeChar {c : Char} (h : c ≠ '\n') :
    newline ∉ String.utf8EncodeChar c := by
  have hcode : c.val.toNat ≠ 10 := fun heq => h (Char.toNat_inj.mp heq)
  have hbyte : ∀ n, n < 256 → n ≠ 10 → newline ≠ UInt8.ofNat n := by
    intro n hn hne heq
    have hnat : (10 : Nat) = n := by
      have := congrArg UInt8.toNat heq
      rwa [UInt8.toNat_ofNat_of_lt' hn] at this
    exact hne hnat.symm
  unfold String.utf8EncodeChar
  dsimp only
  split
  · rw [List.mem_singleton]
    exact hbyte _ (by omega) hcode
  · split
    · simp only [List.mem_cons, List.not_mem_nil, or_false, not_or]
      exact ⟨hbyte _ (by omega) (by omega), hbyte _ (by omega) (by omega)⟩
    · split
      · simp only [List.mem_cons, List.not_mem_nil, or_false, not_or]
        exact ⟨hbyte _ (by omega) (by omega), hbyte _ (by omega) (by omega),
          hbyte _ (by omega) (by omega)⟩
      · simp only [List.mem_cons, List.not_mem_nil, or_false, not_or]
        exact ⟨hbyte _ (by omega) (by omega), hbyte _ (by omega) (by omega),
          hbyte _ (by omega) (by omega), hbyte _ (by omega) (by omega)⟩

theorem newline_not_mem_encode {t : Text} (h : '\n' ∉ t) : newline ∉ encode t := by
  rw [encode, List.mem_flatMap]
  rintro ⟨c, hc, hmem⟩
  exact newline_not_mem_utf8EncodeChar (fun heq => h (heq ▸ hc)) hmem

theorem newline_mem_encode {t : Text} (h : '\n' ∈ t) : newline ∈ encode t :=
  List.mem_flatMap.mpr ⟨'\n', h, by decide⟩

/-- The bytes of a text are the only ones that are read as this text. -/
theorem decode?_eq_some_iff {bytes : List UInt8} {t : Text} :
    decode? bytes = some t ↔ bytes = encode t := by
  constructor
  · intro h
    obtain ⟨chars, hchars, rfl⟩ := Option.map_eq_some_iff.mp h
    have hencode := ByteArray.utf8Encode_get_utf8Decode? (b := bytes.toByteArray)
      (h := by rw [hchars]; rfl)
    simp only [hchars, Option.get_some] at hencode
    have hbytes : (encode chars.toList).toByteArray = bytes.toByteArray := hencode
    exact (List.toByteArray_inj.mp hbytes).symm
  · rintro rfl
    exact decode?_encode t

theorem encode_append (s t : Text) : encode (s ++ t) = encode s ++ encode t := List.flatMap_append

/-- The lines of a written text are its lines, each written, apart from an empty last one. -/
theorem exists_lines_encode (t : Text) :
    ∃ written, lines (encode t) = written.map encode ∧
      (Text.lines t = written ∨ Text.lines t = written ++ [[]]) := by
  -- by induction on the length: the first line is written first
  induction hlength : t.length using Nat.strongRecOn generalizing t with
  | ind n ih =>
    by_cases hmem : '\n' ∈ t
    · obtain ⟨line, rest, rfl, hline⟩ := List.eq_append_cons_of_mem hmem
      have hencode : encode (line ++ '\n' :: rest) =
          encode line ++ newline :: encode rest := by
        rw [encode_append]
        rfl
      have hshort : rest.length < n := by
        rw [← hlength, List.length_append, List.length_cons]
        omega
      obtain ⟨written, hwritten, hlines⟩ := ih _ hshort rest rfl
      rw [hencode, lines_append_newline (newline_not_mem_encode hline), hwritten,
        Text.lines_append_cons, Text.lines_of_not_mem hline]
      exact ⟨line :: written, rfl, hlines.imp (congrArg (line :: ·)) (congrArg (line :: ·))⟩
    · rw [Text.lines_of_not_mem hmem]
      by_cases hnil : t = []
      · subst hnil
        exact ⟨[], rfl, .inr rfl⟩
      · have hbytes : encode t ≠ [] := by
          intro hempty
          have hdecoded := decode?_encode t
          rw [hempty] at hdecoded
          exact hnil (Option.some.inj hdecoded).symm
        exact ⟨[t], lines_of_not_mem (newline_not_mem_encode hmem) hbytes, .inl rfl⟩

/-- The ways in which the last line of a file can end. -/
def lineEndings : List Text := [[], ['\n'], ['\r', '\n']]

/-- An input holds a given text as its only line. -/
def Holds (input : List UInt8) (t : Text) : Prop :=
  ∃ ending ∈ lineEndings, input = encode (t ++ ending)

/-- What is read as the only line is the text, perhaps with a carriage return after it. -/
theorem lines_of_holds {t : Text} (h : Holds input t) (ht : '\n' ∉ t) (hne : t ≠ []) :
    ∃ s, lines input = [encode (t ++ s)] ∧ (s = [] ∨ s = ['\r']) := by
  have hwritten : ∀ s, '\n' ∉ t ++ s → lines (encode (t ++ s ++ ['\n'])) = [encode (t ++ s)] := by
    intro s hs
    rw [encode_append]
    exact lines_append_newline (newline_not_mem_encode hs) []
  obtain ⟨ending, hending, rfl⟩ := h
  simp only [lineEndings, List.mem_cons, List.not_mem_nil, or_false] at hending
  rcases hending with rfl | rfl | rfl
  · refine ⟨[], ?_, .inl rfl⟩
    rw [List.append_nil]
    refine lines_of_not_mem (newline_not_mem_encode ht) fun hnil => hne ?_
    have hdecoded := decode?_encode t
    rw [hnil] at hdecoded
    exact (Option.some.inj hdecoded).symm
  · refine ⟨[], ?_, .inl rfl⟩
    have hline := hwritten [] (by rwa [List.append_nil])
    rwa [List.append_nil] at hline ⊢
  · refine ⟨['\r'], ?_, .inr rfl⟩
    have hline := hwritten ['\r'] (by simpa using ht)
    rwa [List.append_assoc, List.singleton_append] at hline

end Utf8

end PreferenceLogic
