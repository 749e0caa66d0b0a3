import PreferenceLogic.File.Read
import PreferenceLogic.Proofs.Formula.Meaning
import PreferenceLogic.Proofs.Pointwise
import PreferenceLogic.Proofs.Text.Lines
import PreferenceLogic.Proofs.Vocabulary.Table

/-!
# Reading a file part by part

A file that is cut at a line end is read part by part. The second part is read on from what the
first part has given, and its errors are numbered on. So an error is never changed by what follows
it, and the number of an error is that of the line at which reading stops, all lines counted.

Definitions:
* `ReadError.shift`: an error with some lines before it.
* `File.Compositional`: a reader goes on at a line end where it has stopped.

Results:
* `File.fold_append`: a fold over two parts is a fold over the first and then over the second.
* `File.fold_eq_error_iff`: an error is that of the first line that cannot be read.
* `File.readers_compositional`: all four readers go on where they have stopped.
-/

namespace PreferenceLogic

/-! ## Errors further down -/

namespace ReadError

/-- The same error with some lines before it. Bytes that are no text have no number. -/
def shift (lines : Nat) : ReadError → ReadError
  | undecodable => undecodable
  | line error => line ⟨error.line + lines, error.fault⟩

/-- An error is about the first line, as far as it has a number. -/
def OnFirstLine : ReadError → Prop
  | undecodable => True
  | line error => error.line = 1

theorem shift_zero (e : ReadError) : e.shift 0 = e := by
  cases e <;> rfl

theorem shift_shift (e : ReadError) (m n : Nat) : (e.shift m).shift n = e.shift (n + m) := by
  cases e with
  | undecodable => rfl
  | line error => simp only [shift, Nat.add_assoc, Nat.add_comm m]

end ReadError

namespace File

variable {α β : Type} {step : α → Text → Except Fault α} {state : α} {number : Nat}

/-! ## Folds -/

/-- With one more line before them, lines have errors that are numbered one higher. -/
theorem foldLines_succ (number : Nat) (lines : List (List UInt8)) :
    foldLines step (number + 1) state lines =
      (foldLines step number state lines).mapError (.shift 1) := by
  induction lines generalizing number state with
  | nil => rfl
  | cons line rest ih =>
    rw [foldLines, foldLines]
    cases Utf8.decode? line with
    | none => rfl
    | some text =>
      dsimp only
      split
      · exact ih (number + 1)
      · cases step state (Text.trim text) with
        | error fault => rfl
        | ok next => exact ih (number + 1)

theorem foldLines_append (before after : List (List UInt8)) :
    foldLines step number state (before ++ after) =
      foldLines step number state before >>= fun s =>
        (foldLines step number s after).mapError (.shift before.length) := by
  induction before generalizing number state with
  | nil =>
    have hshift : ReadError.shift 0 = id := funext ReadError.shift_zero
    rw [List.nil_append, List.length_nil, hshift]
    exact (mapError_id _).symm
  | cons line rest ih =>
    -- the lines after the first one are numbered from one higher on
    have hrest : ∀ next, foldLines step (number + 1) next (rest ++ after) =
        foldLines step (number + 1) next rest >>= fun s =>
          (foldLines step number s after).mapError (.shift (rest.length + 1)) := by
      intro next
      have hshift : ReadError.shift rest.length ∘ ReadError.shift 1 = .shift (rest.length + 1) :=
        funext fun e => ReadError.shift_shift e 1 rest.length
      rw [ih]
      simp only [foldLines_succ number after, mapError_mapError, hshift]
    rw [List.cons_append, foldLines, foldLines, List.length_cons]
    cases Utf8.decode? line with
    | none => rfl
    | some text =>
      dsimp only
      split
      · exact hrest state
      · cases step state (Text.trim text) with
        | error fault => rfl
        | ok next => exact hrest next

theorem fold_append {x : List UInt8} (hx : Utf8.Complete x) (y : List UInt8) :
    fold step state (x ++ y) =
      fold step state x >>= fun s => (fold step s y).mapError (.shift (Utf8.lineEnds x)) := by
  simp only [fold, Utf8.lines_append hx, foldLines_append, Utf8.length_lines hx]

theorem fold_append_of_error {x y : List UInt8} {err : ReadError} (hx : Utf8.Complete x ∨ y = [])
    (h : fold step state x = .error err) : fold step state (x ++ y) = .error err := by
  rcases hx with hx | rfl
  · rw [fold_append hx, h]
    rfl
  · rwa [List.append_nil]

theorem fold_append_of_ok {x : List UInt8} (hx : Utf8.Complete x) (y : List UInt8) {s : α}
    (h : fold step state x = .ok s) :
    fold step state (x ++ y) = (fold step s y).mapError (.shift (Utf8.lineEnds x)) := by
  rw [fold_append hx, h]
  rfl

/-- The error of a single line is about the first line. -/
theorem onFirstLine_of_fold {line content : List UInt8} {cause : ReadError}
    (hline : Utf8.lines line = [content]) (h : fold step state line = .error cause) :
    cause.OnFirstLine := by
  rw [fold, hline, foldLines] at h
  cases hdecode : Utf8.decode? content with
  | none =>
    rw [hdecode] at h
    cases h
    trivial
  | some text =>
    rw [hdecode] at h
    dsimp only at h
    split at h
    · cases h
    · cases hstep : step state (Text.trim text) with
      | error fault =>
        rw [hstep] at h
        cases h
        rfl
      | ok next =>
        rw [hstep] at h
        cases h

/-- An error is that of the first line that cannot be read after the lines before it, and it has the
number of this line. -/
theorem fold_eq_error_iff {input : List UInt8} {err : ReadError} :
    fold step state input = .error err ↔
      ∃ before line after s cause, Utf8.HasLine input before line after ∧
        fold step state before = .ok s ∧ fold step s line = .error cause ∧ cause.OnFirstLine ∧
          err = cause.shift (Utf8.lineEnds before) := by
  constructor
  · intro h
    -- by induction on the number of bytes: the first line is wrong, or what follows it
    induction hlength : input.length using Nat.strongRecOn generalizing input state err with
    | ind n ih =>
      have hne : input ≠ [] := by
        rintro rfl
        cases h
      obtain ⟨line, after, hline⟩ := Utf8.exists_firstLine hne
      obtain ⟨content, hcontent⟩ := hline.lines_eq
      have hinput : input = line ++ after := hline.eq_append
      cases hfirst : fold step state line with
      | error cause =>
        rw [hinput, fold_append_of_error hline.complete_line hfirst] at h
        cases h
        exact ⟨[], line, after, state, err, hline, rfl, hfirst, onFirstLine_of_fold hcontent hfirst,
          (ReadError.shift_zero err).symm⟩
      | ok s =>
        rcases hline.complete_line with hcomplete | rfl
        · rw [hinput, fold_append_of_ok hcomplete after hfirst] at h
          obtain ⟨later, hlater, rfl⟩ := mapError_eq_error_iff.mp h
          have hshort : after.length < n := by
            have hpos := List.length_pos_iff.mpr hline.ne_nil
            rw [← hlength, hinput, List.length_append]
            omega
          obtain ⟨before, next, rest, s', cause, hnext, hbefore, herror, honFirst, rfl⟩ :=
            ih _ hshort hlater rfl
          refine ⟨line ++ before, next, rest, s', cause, ?_, ?_, herror, honFirst, ?_⟩
          · rw [hinput]
            exact hnext.append hcomplete
          · rw [fold_append_of_ok hcomplete before hfirst, hbefore]
            rfl
          · rw [ReadError.shift_shift, Utf8.lineEnds_append]
        · rw [hinput, List.append_nil, hfirst] at h
          cases h
  · rintro ⟨before, line, after, s, cause, hline, hbefore, herror, -, rfl⟩
    rw [hline.eq_append, fold_append_of_ok hline.complete_before _ hbefore,
      fold_append_of_error hline.complete_line herror]
    rfl

/-! ## Readers -/

/-- A reader goes on at a line end where it has stopped. Here `resume` reads on after something has
been read. -/
structure Compositional (read : List UInt8 → Except ReadError α)
    (resume : α → List UInt8 → Except ReadError α) : Prop where
  /-- An error is not changed by what follows it. -/
  of_error : ∀ (x y : List UInt8) (err : ReadError), Utf8.Complete x → read x = .error err →
    read (x ++ y) = .error err
  /-- What follows is read on from what has been read, and its errors are numbered on. -/
  of_ok : ∀ (x y : List UInt8) (a : α), Utf8.Complete x → read x = .ok a →
    read (x ++ y) = (resume a y).mapError (.shift (Utf8.lineEnds x))
  /-- An error is that of the first line that cannot be read after the lines before it, and it has
  the number of this line. -/
  eq_error_iff : ∀ (input : List UInt8) (err : ReadError), read input = .error err ↔
    ∃ before line after a cause, Utf8.HasLine input before line after ∧ read before = .ok a ∧
      resume a line = .error cause ∧ cause.OnFirstLine ∧
        err = cause.shift (Utf8.lineEnds before)

theorem compositional_fold (step : α → Text → Except Fault α) (state : α) :
    Compositional (fold step state) (fold step) where
  of_error _ _ _ hx h := fold_append_of_error (.inl hx) h
  of_ok _ y _ hx h := fold_append_of_ok hx y h
  eq_error_iff _ _ := fold_eq_error_iff

/-- A reader goes on where it has stopped, whatever is made of what is read. -/
theorem Compositional.map {read : List UInt8 → Except ReadError α}
    {resume : α → List UInt8 → Except ReadError α} (h : Compositional read resume) {f : α → β}
    {resume' : β → List UInt8 → Except ReadError β}
    (hresume : ∀ a y, resume' (f a) y = (resume a y).map f) :
    Compositional (fun input => (read input).map f) resume' where
  of_error x y err hx hread := by
    rw [map_eq_error_iff] at hread ⊢
    exact h.of_error x y err hx hread
  of_ok x y b hx hread := by
    obtain ⟨a, ha, rfl⟩ := map_eq_ok_iff.mp hread
    rw [h.of_ok x y a hx ha, hresume, map_mapError]
  eq_error_iff input err := by
    rw [map_eq_error_iff, h.eq_error_iff]
    constructor
    · rintro ⟨before, line, after, a, cause, hline, hbefore, herror, honFirst⟩
      refine ⟨before, line, after, f a, cause, hline, ?_, ?_, honFirst⟩
      · rw [hbefore]
        rfl
      · rw [hresume, herror]
        rfl
    · rintro ⟨before, line, after, b, cause, hline, hbefore, herror, honFirst⟩
      obtain ⟨a, ha, rfl⟩ := map_eq_ok_iff.mp hbefore
      rw [hresume, map_eq_error_iff] at herror
      exact ⟨before, line, after, a, cause, hline, ha, herror, honFirst⟩

/-- Entries are put in front of those that were read before. -/
theorem foldLines_cons_eq_map (parse : Text → Except Fault α) (items : List α)
    (lines : List (List UInt8)) :
    foldLines (fun items line => (parse line).map (· :: items)) number items lines =
      (foldLines (fun items line => (parse line).map (· :: items)) number [] lines).map
        (· ++ items) := by
  induction lines generalizing number items with
  | nil => rfl
  | cons line rest ih =>
    rw [foldLines, foldLines]
    cases Utf8.decode? line with
    | none => rfl
    | some text =>
      dsimp only
      split
      · exact ih items
      · cases parse (Text.trim text) with
        | error fault => rfl
        | ok item =>
          show foldLines _ (number + 1) (item :: items) rest =
            (foldLines _ (number + 1) [item] rest).map (· ++ items)
          rw [ih (item :: items), ih [item]]
          cases foldLines _ (number + 1) [] rest with
          | error err => rfl
          | ok found => simp [Except.map]

/-- Reading entries goes on with more entries. -/
theorem compositional_collect (parse : Text → Except Fault α) :
    Compositional (collect parse) (fun items y => (collect parse y).map (items ++ ·)) := by
  refine (compositional_fold _ []).map fun found y => ?_
  rw [collect, fold, fold, foldLines_cons_eq_map parse found]
  cases foldLines _ 1 [] (Utf8.lines y) with
  | error err => rfl
  | ok later => simp [Except.map]

end File

/-- Reading attributes goes on with the attributes that were read. -/
theorem Vocabulary.compositional_read : File.Compositional read (File.fold declare) := by
  rw [funext read_eq_fold]
  exact File.compositional_fold declare .empty

/-- Reading constraints goes on with more clauses. -/
theorem Formula.compositional_read (v : Vocabulary) :
    File.Compositional (Formula.read v) (fun f y => (Formula.read v y).map fun g =>
      ofClauses v.size (f.clauses ++ g.clauses)) := by
  refine (File.compositional_collect _).map fun formulas y => ?_
  rw [Formula.read]
  cases File.collect (fun line => (parse v line).mapError .label) y with
  | error err => rfl
  | ok later => simp [Except.map]

namespace File

/-- **Line ends.** All four readers go on at a line end where they have stopped. An error of a part
that stops at a line end is the error of the whole, whatever follows. Otherwise what follows is read
on: attributes are registered after those that were read, clauses and rules are added after those
that were read, and the number of an error is increased by the number of lines before. So an error
is that of the first line that cannot be read, and has the number of this line among all lines. -/
theorem readers_compositional :
    Compositional Vocabulary.read (fold Vocabulary.declare) ∧
      ∀ v : Vocabulary,
        Compositional (Formula.read v) (fun f y => (Formula.read v y).map fun g =>
          .ofClauses v.size (f.clauses ++ g.clauses)) ∧
        Compositional (PenaltyRule.read v)
          (fun rules y => (PenaltyRule.read v y).map (rules ++ ·)) ∧
        Compositional (ChoiceRule.read v)
          (fun rules y => (ChoiceRule.read v y).map (rules ++ ·)) :=
  ⟨Vocabulary.compositional_read, fun v => ⟨Formula.compositional_read v, compositional_collect _,
    compositional_collect _⟩⟩

/-- A comment and an empty line are counted, so the unknown label in the second part is reported at
the fifth line of the whole. Where the first part has an unknown label, nothing after it matters,
not even bytes that are no text. -/
theorem readers_compositional_gifts :
    Formula.read Formula.gifts (Utf8.encode "# size\n\nbig OR blue\n".toList ++
        Utf8.encode "red\ngreen\n".toList) =
      .error (.line ⟨5, .label (.unknown "green".toList)⟩) ∧
    ∀ y, Formula.read Formula.gifts (Utf8.encode "\ngreen\n".toList ++ y) =
      .error (.line ⟨2, .label (.unknown "green".toList)⟩) := by
  obtain ⟨-, hreaders⟩ := readers_compositional
  obtain ⟨hconstraints, -, -⟩ := hreaders Formula.gifts
  constructor
  · have hx : Formula.read Formula.gifts (Utf8.encode "# size\n\nbig OR blue\n".toList) =
        .ok (.ofClauses 2 [[⟨0, true⟩, ⟨1, false⟩]]) := by decide +kernel
    rw [hconstraints.of_ok _ _ _ (.inr (by decide)) hx]
    decide +kernel
  · intro y
    exact hconstraints.of_error _ y _ (.inr (by decide)) (by decide +kernel)

end File

end PreferenceLogic
