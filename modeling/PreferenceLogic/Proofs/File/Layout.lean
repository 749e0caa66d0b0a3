import Mathlib.Logic.Relation
import PreferenceLogic.Proofs.File.ContentLines
import PreferenceLogic.Proofs.Formula.Meaning
import PreferenceLogic.Proofs.Text.Lines
import PreferenceLogic.Proofs.Vocabulary.Table

/-!
# The layout of a file

How a file is laid out does not matter: with which bytes its lines end, which blanks stand around
them, whether the last line ends at all, and what its blank lines and comments are. Only the number
of the lines before a line can be seen, from the number of an error. So more or fewer lines that say
nothing change no more than the numbers of errors.

Definitions:
* `File.Relays`: a change of the layout that leaves all lines in their places.
* `File.Inserts`: a line that says nothing is inserted.
* `File.IsReader`: the four readers.

Results:
* `File.numberedLines_encode`: the content lines of a written text.
* `File.Relays.numberedLines_eq`: a change of the layout leaves the content lines and their numbers.
* `File.Inserts.map_snd_numberedLines`: an insertion leaves the content lines.
* `File.readers_ignore_layout`: no reader sees the layout of a file.
-/

namespace PreferenceLogic

/-- What is wrong, at whatever line. Bytes that are no text have no fault. -/
def ReadError.fault? : ReadError → Option Fault
  | undecodable => none
  | line error => some error.fault

namespace File

/-! ## Content lines of texts -/

/-- What a line says: the trimmed line, or nothing. -/
def content (line : Text) : List Text := if isSilent (Text.trim line) then [] else [Text.trim line]

/-- What the lines of a text say, each with its number. -/
def numbered (number : Nat) (lines : List Text) : List (Nat × Text) :=
  (lines.zipIdx number).flatMap fun line => (content line.1).map (Prod.mk line.2)

theorem numbered_cons (number : Nat) (line : Text) (rest : List Text) :
    numbered number (line :: rest) =
      (content line).map (Prod.mk number) ++ numbered (number + 1) rest := by
  rw [numbered, List.zipIdx_cons, List.flatMap_cons]
  rfl

theorem numbered_append (number : Nat) (above below : List Text) :
    numbered number (above ++ below) =
      numbered number above ++ numbered (number + above.length) below := by
  rw [numbered, List.zipIdx_append, List.flatMap_append, Nat.add_comm]
  rfl

theorem map_snd_numbered (number : Nat) (lines : List Text) :
    (numbered number lines).map Prod.snd = lines.flatMap content := by
  induction lines generalizing number with
  | nil => rfl
  | cons line rest ih =>
    rw [numbered_cons, List.map_append, ih, List.flatMap_cons, List.map_map]
    congr 1
    exact List.map_id _

theorem contentOf_encode (line : Text) : contentOf [Utf8.encode line] = content line := by
  rw [contentOf_cons (Utf8.decode?_encode line), content]
  rfl

theorem decodable_encode (t : Text) : Decodable (Utf8.encode t) := by
  obtain ⟨written, hwritten, -⟩ := Utf8.exists_lines_encode t
  intro line hline
  rw [hwritten, List.mem_map] at hline
  obtain ⟨text, -, rfl⟩ := hline
  rw [Utf8.decode?_encode]
  rfl

theorem numberedFrom_map_encode (number : Nat) (written : List Text) :
    numberedFrom number (written.map Utf8.encode) = numbered number written := by
  induction written generalizing number with
  | nil => rfl
  | cons line rest ih =>
    rw [List.map_cons, numberedFrom_cons, contentOf_encode, ih, numbered_cons]

/-- An empty line at the end says nothing. -/
theorem numbered_concat_nil (number : Nat) (lines : List Text) :
    numbered number (lines ++ [[]]) = numbered number lines := by
  rw [numbered_append]
  exact List.append_nil _

theorem numberedLines_encode (t : Text) :
    numberedLines (Utf8.encode t) = numbered 1 (Text.lines t) := by
  obtain ⟨written, hwritten, hlines | hlines⟩ := Utf8.exists_lines_encode t
  · rw [numberedLines, hwritten, numberedFrom_map_encode, hlines]
  · rw [numberedLines, hwritten, numberedFrom_map_encode, hlines, numbered_concat_nil]

/-! ## Changes of the layout -/

/-- A change of the layout that leaves all lines in their places. -/
inductive Relays : Text → Text → Prop where
  /-- A line ends with a carriage return and a newline. -/
  | carriageReturn (before after : Text) :
    Relays (before ++ '\n' :: after) (before ++ '\r' :: '\n' :: after)
  /-- Blanks that end no line are put at the start of a line and at its end. -/
  | blanks {before line after start stop : Text} (h : Text.IsLine before line after)
    (hstart : Text.Blank start) (hstop : Text.Blank stop) (hstart' : '\n' ∉ start)
    (hstop' : '\n' ∉ stop) :
    Relays (before ++ line ++ after) (before ++ (start ++ line ++ stop) ++ after)
  /-- The last line ends. -/
  | lastLineEnd (t : Text) : Relays t (t ++ ['\n'])
  /-- A line that is blank or a comment is replaced by another such line. -/
  | silent {before line line' after : Text} (h : Text.IsLine before line after)
    (h' : '\n' ∉ line') (hline : isSilent (Text.trim line) = true)
    (hline' : isSilent (Text.trim line') = true) :
    Relays (before ++ line ++ after) (before ++ line' ++ after)

/-- A line that is blank or a comment is inserted. -/
inductive Inserts : Text → Text → Prop where
  | silent {before line after : Text} (h : Text.IsLine before line ('\n' :: after))
    (hline : isSilent (Text.trim line) = true) :
    Inserts (before ++ after) (before ++ line ++ '\n' :: after)

theorem content_of_isSilent {line : Text} (h : isSilent (Text.trim line) = true) :
    content line = [] := if_pos h

/-- Blanks around a line are not what it says. -/
theorem content_append {start stop : Text} (hstart : Text.Blank start) (hstop : Text.Blank stop)
    (line : Text) : content (start ++ line ++ stop) = content line := by
  have htrim : Text.trim (start ++ line ++ stop) = Text.trim line := by
    rw [hstop.trim_append, Text.trim, Text.trimStart, List.dropWhile_append_of_pos hstart,
      Text.trim, Text.trimStart]
  rw [content, content, htrim]

/-- A line is replaced by one that says the same. -/
theorem numberedLines_replace {before line line' after : Text} (h : Text.IsLine before line after)
    (h' : '\n' ∉ line') (hcontent : content line = content line') :
    numberedLines (Utf8.encode (before ++ line ++ after)) =
      numberedLines (Utf8.encode (before ++ line' ++ after)) := by
  obtain ⟨above, below, hlines⟩ := h.exists_lines
  rw [numberedLines_encode, numberedLines_encode, hlines line h.newline_not_mem, hlines line' h',
    numbered_append, numbered_append, numbered_cons, numbered_cons, hcontent]

theorem Relays.numberedLines_eq {s t : Text} (h : Relays s t) :
    numberedLines (Utf8.encode s) = numberedLines (Utf8.encode t) := by
  cases h with
  | carriageReturn before after =>
    obtain ⟨start, line, rfl, hline⟩ := Text.exists_isLine before after
    have hstop : Text.Blank ['\r'] := List.forall_mem_singleton.mpr rfl
    have hcontent : content line = content (line ++ ['\r']) :=
      (content_append (fun _ hc => absurd hc List.not_mem_nil) hstop line).symm
    have h' : '\n' ∉ line ++ ['\r'] := by simpa using hline.newline_not_mem
    have heq := numberedLines_replace hline h' hcontent
    simpa using heq
  | blanks h hstart hstop hstart' hstop' =>
    refine numberedLines_replace h ?_ (content_append hstart hstop _).symm
    simp [hstart', hstop', h.newline_not_mem]
  | lastLineEnd =>
    rw [numberedLines_encode, numberedLines_encode, Text.lines_append_cons]
    exact (numbered_concat_nil 1 _).symm
  | silent h h' hline hline' =>
    refine numberedLines_replace h h' ?_
    rw [content_of_isSilent hline, content_of_isSilent hline']

theorem Inserts.map_snd_numberedLines {s t : Text} (h : Inserts s t) :
    (numberedLines (Utf8.encode s)).map Prod.snd =
      (numberedLines (Utf8.encode t)).map Prod.snd := by
  cases h with
  | silent h hline =>
    rename_i before line after
    obtain ⟨above, habove⟩ := Text.exists_lines_append h.start
    rw [numberedLines_encode, numberedLines_encode, map_snd_numbered, map_snd_numbered,
      List.append_assoc, habove, habove, Text.lines_append_cons,
      Text.lines_of_not_mem h.newline_not_mem]
    simp only [List.flatMap_append, List.flatMap_cons, List.flatMap_nil, content_of_isSilent hline,
      List.nil_append]

/-- The layout can be changed any number of times, and back again. -/
theorem numberedLines_eq_of_relaid {s t : Text} (h : Relation.EqvGen Relays s t) :
    numberedLines (Utf8.encode s) = numberedLines (Utf8.encode t) := by
  induction h with
  | rel _ _ h => exact h.numberedLines_eq
  | refl => rfl
  | symm _ _ _ ih => exact ih.symm
  | trans _ _ _ _ _ hst htu => exact hst.trans htu

theorem map_snd_numberedLines_eq {s t : Text}
    (h : Relation.EqvGen (fun s t => Relays s t ∨ Inserts s t) s t) :
    (numberedLines (Utf8.encode s)).map Prod.snd =
      (numberedLines (Utf8.encode t)).map Prod.snd := by
  induction h with
  | rel _ _ h =>
    rcases h with h | h
    · rw [h.numberedLines_eq]
    · exact h.map_snd_numberedLines
  | refl => rfl
  | symm _ _ _ ih => exact ih.symm
  | trans _ _ _ _ _ hst htu => exact hst.trans htu

/-! ## Readers -/

/-- The readers of the four files. -/
inductive IsReader : (α : Type) → (List UInt8 → Except ReadError α) → Prop where
  | attributes : IsReader Vocabulary Vocabulary.read
  | constraints (v : Vocabulary) : IsReader Formula (Formula.read v)
  | penaltyRules (v : Vocabulary) : IsReader (List PenaltyRule) (PenaltyRule.read v)
  | choiceRules (v : Vocabulary) : IsReader (List ChoiceRule) (ChoiceRule.read v)

variable {α : Type} {read : List UInt8 → Except ReadError α}

/-- A reader folds a step over the content lines and makes something of what is found. -/
theorem IsReader.exists_fold (h : IsReader α read) :
    ∃ (β : Type) (step : β → Text → Except Fault β) (state : β) (f : β → α),
      ∀ input, read input = (fold step state input).map f := by
  cases h with
  | attributes =>
    refine ⟨_, Vocabulary.declare, .empty, id, fun input => ?_⟩
    rw [Vocabulary.read_eq_fold, Except.map_id, id]
  | constraints v =>
    refine ⟨_, fun items line => ((Formula.parse v line).mapError .label).map (· :: items), [],
      fun formulas => .ofClauses v.size (formulas.reverse.flatMap Formula.clauses), fun input => ?_⟩
    rw [Formula.read, collect]
    cases fold _ _ input <;> rfl
  | penaltyRules v => exact ⟨_, _, _, _, fun _ => rfl⟩
  | choiceRules v => exact ⟨_, _, _, _, fun _ => rfl⟩

theorem fold_eq_of_numberedLines {β : Type} {step : β → Text → Except Fault β} {state : β}
    {s t : Text} (h : numberedLines (Utf8.encode s) = numberedLines (Utf8.encode t)) :
    fold step state (Utf8.encode s) = fold step state (Utf8.encode t) := by
  rw [fold, fold, foldLines_eq_foldlM (decodable_encode s),
    foldLines_eq_foldlM (decodable_encode t), ← numberedLines, ← numberedLines, h]

/-- Without their numbers, the errors are those of the lines one after the other. -/
theorem mapError_foldlM_atLine {β : Type} (step : β → Text → Except Fault β) (state : β)
    (lines : List (Nat × Text)) :
    ((lines.foldlM (fun state line => atLine line.1 (step state line.2)) state).mapError
        .line).mapError ReadError.fault? =
      ((lines.map Prod.snd).foldlM step state).mapError some := by
  induction lines generalizing state with
  | nil => rfl
  | cons line rest ih =>
    rw [List.map_cons, List.foldlM_cons, List.foldlM_cons]
    cases step state line.2 with
    | error fault => rfl
    | ok next => exact ih next

theorem mapError_fold_eq {β : Type} {step : β → Text → Except Fault β} {state : β} {s t : Text}
    (h : (numberedLines (Utf8.encode s)).map Prod.snd =
      (numberedLines (Utf8.encode t)).map Prod.snd) :
    (fold step state (Utf8.encode s)).mapError ReadError.fault? =
      (fold step state (Utf8.encode t)).mapError ReadError.fault? := by
  rw [fold, fold, foldLines_eq_foldlM (decodable_encode s),
    foldLines_eq_foldlM (decodable_encode t), ← numberedLines, ← numberedLines,
    mapError_foldlM_atLine, mapError_foldlM_atLine, h]

/-- **Layout.** All four readers read the same from two texts that differ only in their layout, and
an error has the same number and the same text. If there are also more or fewer lines that are blank
or comments, then errors may have other numbers, and nothing else is different. -/
theorem readers_ignore_layout (hread : IsReader α read) {x y : List UInt8} {s t : Text}
    (hx : Utf8.decode? x = some s) (hy : Utf8.decode? y = some t) :
    (Relation.EqvGen Relays s t → read x = read y) ∧
    (Relation.EqvGen (fun s t => Relays s t ∨ Inserts s t) s t →
      (read x).mapError ReadError.fault? = (read y).mapError ReadError.fault?) := by
  obtain rfl := Utf8.decode?_eq_some_iff.mp hx
  obtain rfl := Utf8.decode?_eq_some_iff.mp hy
  obtain ⟨β, step, state, f, hfold⟩ := hread.exists_fold
  constructor
  · intro h
    rw [hfold, hfold, fold_eq_of_numberedLines (numberedLines_eq_of_relaid h)]
  · intro h
    rw [hfold, hfold, ← map_mapError, ← map_mapError, mapError_fold_eq (map_snd_numberedLines_eq h)]

/-- A constraint and an unknown label, with a comment between them. -/
def plainFile : Text := "big\n# size\ngreen".toList

/-- The same with other line ends, a blank line for the comment, and blanks around the label. -/
def wideFile : Text := "big\r\n\n green\t\n".toList

theorem relaid_wideFile : Relation.EqvGen Relays plainFile wideFile := by
  have hcomment : Text.IsLine "big\n".toList "# size".toList "\ngreen".toList :=
    ⟨.inr rfl, by decide, .inr rfl⟩
  have hgreen : Text.IsLine "big\n\n".toList "green".toList [] := ⟨.inr rfl, by decide, .inl rfl⟩
  have hends := Relays.carriageReturn "big".toList "\n green\t\n".toList
  have hspace : Text.Blank [' '] := List.forall_mem_singleton.mpr rfl
  have htab : Text.Blank ['\t'] := List.forall_mem_singleton.mpr rfl
  have hempty : '\n' ∉ ([] : Text) := List.not_mem_nil
  have hblanks := Relays.blanks hgreen hspace htab (by decide) (by decide)
  have hsilent := Relays.silent hcomment hempty (by decide) (by decide)
  exact .trans _ _ _ (.rel _ _ hsilent) (.trans _ _ _ (.rel _ _ hblanks)
    (.trans _ _ _ (.rel _ _ (.lastLineEnd _)) (.rel _ _ hends)))

/-- The unknown label is reported at the third line in both layouts. With one more comment before
it, it is reported at another line. -/
theorem readers_ignore_layout_wideFile :
    Utf8.decode? (Utf8.encode plainFile) = some plainFile ∧
    Formula.read Formula.gifts (Utf8.encode plainFile) =
      .error (.line ⟨3, .label (.unknown "green".toList)⟩) ∧
    Formula.read Formula.gifts (Utf8.encode wideFile) =
      .error (.line ⟨3, .label (.unknown "green".toList)⟩) ∧
    (Formula.read Formula.gifts (Utf8.encode ("# color\n".toList ++ wideFile))).mapError
      ReadError.fault? = .error (some (.label (.unknown "green".toList))) := by
  have hdecode := fun t => Utf8.decode?_encode t
  have hplain : Formula.read Formula.gifts (Utf8.encode plainFile) =
      .error (.line ⟨3, .label (.unknown "green".toList)⟩) := by decide +kernel
  have hfirst : Text.IsLine [] "# color".toList ('\n' :: wideFile) :=
    ⟨.inl rfl, by decide, .inr rfl⟩
  have hinserts : Inserts wideFile ("# color\n".toList ++ wideFile) := .silent hfirst (by decide)
  obtain ⟨hrelaid, -⟩ :=
    readers_ignore_layout (.constraints Formula.gifts) (hdecode plainFile) (hdecode wideFile)
  obtain ⟨-, hinserted⟩ := readers_ignore_layout (.constraints Formula.gifts) (hdecode plainFile)
    (hdecode ("# color\n".toList ++ wideFile))
  refine ⟨hdecode plainFile, hplain, ?_, ?_⟩
  · rw [← hrelaid relaid_wideFile, hplain]
  · rw [← hinserted, hplain]
    · rfl
    · exact .trans _ _ _ (relaid_wideFile.mono fun _ _ => .inl) (.rel _ _ (.inr hinserts))

end File

end PreferenceLogic
