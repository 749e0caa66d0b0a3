import Mathlib.Data.List.Perm.Basic
import PreferenceLogic.File.Read
import PreferenceLogic.Proofs.Pointwise
import PreferenceLogic.Proofs.Text.Trim

/-!
# What is read from a file

A file is read as its content lines, one entry for each of them and in their order. All lines have
to be UTF-8, also those that say nothing.

Definitions:
* `File.contentLines`: the trimmed lines of a file that are neither blank nor comments.
* `File.numberedLines`: the same lines, each with its number in the file.
* `File.SameLines`: two files have the same content lines.

Results:
* `File.fold_eq_ok_iff`: a fold over a file is a fold over its content lines.
* `File.fold_simulates`: steps that do the same fold to the same.
* `File.collect_eq_ok_iff`: a file of entries is read exactly when each content line is.
* `File.collect_eq_mapM`: the first content line that is refused is the error of the file.
* `File.SameLines.exists_collect`: the order of the lines is the order of the entries.
* `Formula.read_eq_ok_iff`: constraints are the clauses of all content lines.
-/

namespace PreferenceLogic

namespace File

/-- The content lines among some lines. -/
def contentOf (lines : List (List UInt8)) : List Text :=
  (lines.filterMap fun line => (Utf8.decode? line).map Text.trim).filter fun line => !isSilent line

/-- The trimmed lines of a file that are neither blank nor comments. -/
def contentLines (input : List UInt8) : List Text := contentOf (Utf8.lines input)

/-- Every line of a file is UTF-8. -/
def Decodable (input : List UInt8) : Prop := ∀ line ∈ Utf8.lines input, (Utf8.decode? line).isSome

instance (input : List UInt8) : Decidable (Decodable input) :=
  inferInstanceAs (Decidable (∀ line ∈ _, _))

variable {α : Type} {step : α → Text → Except Fault α} {state final : α}

theorem contentOf_cons {line : List UInt8} {text : Text} (h : Utf8.decode? line = some text)
    (rest : List (List UInt8)) :
    contentOf (line :: rest) =
      if isSilent (Text.trim text) then contentOf rest
      else Text.trim text :: contentOf rest := by
  rw [contentOf, List.filterMap_cons, h, Option.map_some, List.filter_cons]
  cases isSilent (Text.trim text) <;> rfl

theorem trim_of_mem_contentLines {input : List UInt8} {line : Text}
    (h : line ∈ contentLines input) : Text.trim line = line := by
  obtain ⟨bytes, -, hbytes⟩ := List.mem_filterMap.mp (List.mem_filter.mp h).1
  obtain ⟨text, -, rfl⟩ := Option.map_eq_some_iff.mp hbytes
  exact Text.trim_trim text

theorem ne_nil_of_mem_contentLines {input : List UInt8} {line : Text}
    (h : line ∈ contentLines input) : line ≠ [] := by
  rintro rfl
  exact absurd (List.mem_filter.mp h).2 (by decide)

theorem foldLines_eq_ok_iff {number : Nat} {lines : List (List UInt8)} :
    foldLines step number state lines = .ok final ↔
      (∀ line ∈ lines, (Utf8.decode? line).isSome) ∧
        (contentOf lines).foldlM step state = .ok final := by
  induction lines generalizing number state with
  | nil => simp [foldLines, contentOf, pure, Except.pure]
  | cons line rest ih =>
    rw [foldLines, List.forall_mem_cons]
    cases h : Utf8.decode? line with
    | none => simp
    | some text =>
      rw [contentOf_cons h]
      simp only [Option.isSome_some, true_and]
      split
      · exact ih
      · rw [List.foldlM_cons]
        cases hstep : step state (Text.trim text) with
        | error fault => simp [bind, Except.bind]
        | ok next => exact ih

theorem fold_eq_ok_iff {input : List UInt8} :
    fold step state input = .ok final ↔
      Decodable input ∧ (contentLines input).foldlM step state = .ok final :=
  foldLines_eq_ok_iff

/-- A step that follows another one, with states that stay related, folds to related results and has
the same errors. -/
theorem fold_simulates {β : Type} {step' : β → Text → Except Fault β} {R : α → β → Prop}
    (hok : ∀ a b t b', R a b → step' b t = .ok b' → ∃ a', step a t = .ok a' ∧ R a' b')
    (herror : ∀ a b t fault, R a b → step' b t = .error fault → step a t = .error fault)
    {a : α} {b : β} (h : R a b) (input : List UInt8) :
    (∀ err, fold step' b input = .error err → fold step a input = .error err) ∧
      ∀ b', fold step' b input = .ok b' → ∃ a', fold step a input = .ok a' ∧ R a' b' := by
  unfold fold
  generalize 1 = number, Utf8.lines input = lines
  induction lines generalizing number a b with
  | nil =>
    refine ⟨fun err herr => ?_, fun b' hb' => ?_⟩
    · cases herr
    · cases hb'
      exact ⟨a, rfl, h⟩
  | cons line rest ih =>
    rw [foldLines, foldLines]
    cases Utf8.decode? line with
    | none =>
      refine ⟨fun err herr => ?_, fun b' hb' => ?_⟩
      · cases herr
        rfl
      · cases hb'
    | some text =>
      dsimp only
      split
      · exact ih h _
      · cases hstep : step' b (Text.trim text) with
        | error fault =>
          rw [herror _ _ _ _ h hstep]
          refine ⟨fun err herr => ?_, fun b' hb' => ?_⟩
          · cases herr
            rfl
          · cases hb'
        | ok next =>
          obtain ⟨next', hnext, hrelated⟩ := hok _ _ _ _ h hstep
          rw [hnext]
          exact ih hrelated _

/-- Entries are put in front one by one, so what is read comes out in reverse. -/
theorem foldlM_cons_eq_ok_iff {parse : Text → Except Fault α} {lines : List Text}
    {before after : List α} :
    lines.foldlM (fun items line => (parse line).map (· :: items)) before = .ok after ↔
      ∃ items, List.Forall₂ (fun line item => parse line = .ok item) lines items ∧
        after = items.reverse ++ before := by
  induction lines generalizing before with
  | nil => simp [pure, Except.pure, eq_comm]
  | cons line rest ih =>
    simp only [List.foldlM_cons, List.forall₂_cons_left_iff]
    cases h : parse line with
    | error fault => simp [Except.map, bind, Except.bind]
    | ok item =>
      show rest.foldlM _ (item :: before) = _ ↔ _
      rw [ih]
      constructor
      · rintro ⟨items, hitems, rfl⟩
        exact ⟨item :: items, ⟨item, items, rfl, hitems, rfl⟩, by simp⟩
      · rintro ⟨_, ⟨_, items, ⟨⟩, hitems, rfl⟩, rfl⟩
        exact ⟨items, hitems, by simp⟩

theorem collect_eq_ok_iff {parse : Text → Except Fault α} {input : List UInt8} {items : List α} :
    collect parse input = .ok items ↔
      Decodable input ∧
        List.Forall₂ (fun line item => parse line = .ok item) (contentLines input) items := by
  rw [collect, map_eq_ok_iff]
  simp only [fold_eq_ok_iff, foldlM_cons_eq_ok_iff, List.append_nil]
  constructor
  · intro h
    obtain ⟨_, ⟨hdecodable, found, hfound, rfl⟩, heq⟩ := h
    rw [List.reverse_reverse] at heq
    subst heq
    exact ⟨hdecodable, hfound⟩
  · intro h
    obtain ⟨hdecodable, hitems⟩ := h
    exact ⟨items.reverse, ⟨hdecodable, items, hitems, rfl⟩, List.reverse_reverse items⟩

/-! ## The numbers of the lines -/

/-- What is read of a text at a line: a fault is an error at this line. -/
def atLine (number : Nat) (result : Except Fault α) : Except LineError α :=
  result.mapError (LineError.mk number)

/-- The content lines among some lines with their numbers, where the first of the lines has the
given number. -/
def numberedFrom (number : Nat) (lines : List (List UInt8)) : List (Nat × Text) :=
  (lines.zipIdx number).flatMap fun line => (contentOf [line.1]).map (Prod.mk line.2)

/-- The content lines of a file with their numbers. -/
def numberedLines (input : List UInt8) : List (Nat × Text) := numberedFrom 1 (Utf8.lines input)

theorem numberedFrom_cons (number : Nat) (line : List UInt8) (rest : List (List UInt8)) :
    numberedFrom number (line :: rest) =
      (contentOf [line]).map (Prod.mk number) ++ numberedFrom (number + 1) rest := by
  rw [numberedFrom, List.zipIdx_cons, List.flatMap_cons]
  rfl

/-- A fault at a content line is an error at the number of this line. -/
theorem foldLines_eq_foldlM {number : Nat} {lines : List (List UInt8)}
    (h : ∀ line ∈ lines, (Utf8.decode? line).isSome) :
    foldLines step number state lines =
      ((numberedFrom number lines).foldlM (fun state line => atLine line.1 (step state line.2))
        state).mapError .line := by
  induction lines generalizing number state with
  | nil => rfl
  | cons line rest ih =>
    rw [List.forall_mem_cons] at h
    obtain ⟨text, htext⟩ := Option.isSome_iff_exists.mp h.1
    rw [numberedFrom_cons, contentOf_cons htext, foldLines, htext]
    dsimp only
    split
    · exact ih h.2
    · cases hstep : step state (Text.trim text) with
      | error fault =>
        simp only [List.map_cons, List.cons_append]
        rw [List.foldlM_cons, hstep]
        rfl
      | ok next =>
        simp only [List.map_cons, List.cons_append]
        rw [List.foldlM_cons, hstep]
        exact ih h.2

/-- Entries are put in front one by one, each at the number of its line. -/
theorem foldlM_atLine_eq_map {parse : Text → Except Fault α} (lines : List (Nat × Text))
    (items : List α) :
    lines.foldlM (fun items line => atLine line.1 ((parse line.2).map (· :: items))) items =
      (lines.mapM fun line => atLine line.1 (parse line.2)).map fun found =>
        found.reverse ++ items := by
  induction lines generalizing items with
  | nil => rfl
  | cons line rest ih =>
    rw [List.foldlM_cons, List.mapM_cons]
    cases hparse : parse line.2 with
    | error fault => rfl
    | ok item =>
      show rest.foldlM _ (item :: items) = _
      rw [ih]
      show _ = Except.map _ (Except.bind (rest.mapM _) fun found => .ok (item :: found))
      cases rest.mapM fun line => atLine line.1 (parse line.2) with
      | error err => rfl
      | ok found => simp [Except.map, Except.bind]

/-- Entries are read line by line, and the first one that is refused is the error of the file, at
the number of its line. -/
theorem collect_eq_mapM {parse : Text → Except Fault α} {input : List UInt8}
    (h : Decodable input) :
    collect parse input =
      ((numberedLines input).mapM fun line => atLine line.1 (parse line.2)).mapError .line := by
  rw [collect, fold, foldLines_eq_foldlM h, foldlM_atLine_eq_map, map_mapError, ← numberedLines]
  cases (numberedLines input).mapM fun line => atLine line.1 (parse line.2) with
  | error err => rfl
  | ok found => simp [Except.map, Except.mapError]

/-- A file that is read in one way is read in another one, if each line is. -/
theorem exists_collect_of {parse parse' : Text → Except Fault α} {R : α → α → Prop}
    (hstep : ∀ line item, parse line = .ok item → ∃ item', parse' line = .ok item' ∧ R item item')
    {input : List UInt8} {items : List α} (h : collect parse input = .ok items) :
    ∃ items', collect parse' input = .ok items' ∧ List.Forall₂ R items items' := by
  obtain ⟨hdecodable, hitems⟩ := collect_eq_ok_iff.mp h
  have hlines : List.Forall₂ Eq (contentLines input) (contentLines input) :=
    List.forall₂_refl (contentLines input)
  obtain ⟨items', hitems', hR⟩ := exists_forall₂_of_forall₂
    (fun line _ item heq hitem => heq ▸ hstep line item hitem) hlines hitems
  exact ⟨items', collect_eq_ok_iff.mpr ⟨hdecodable, hitems'⟩, hR⟩

/-! ## The order of the lines -/

/-- Two files are UTF-8 and have the same content lines, in whatever order. -/
structure SameLines (input input' : List UInt8) : Prop where
  decodable : Decodable input
  decodable' : Decodable input'
  perm : (contentLines input).Perm (contentLines input')

theorem SameLines.symm {input input' : List UInt8} (h : SameLines input input') :
    SameLines input' input := ⟨h.decodable', h.decodable, h.perm.symm⟩

/-- What is read from the lines in another order are the same entries in another order. -/
theorem SameLines.exists_collect {input input' : List UInt8} (h : SameLines input input')
    {parse : Text → Except Fault α} {items : List α} (hread : collect parse input = .ok items) :
    ∃ items', collect parse input' = .ok items' ∧ items'.Perm items := by
  obtain ⟨-, hitems⟩ := collect_eq_ok_iff.mp hread
  obtain ⟨items', hitems', hperm⟩ := List.perm_comp_forall₂ h.perm.symm hitems
  exact ⟨items', collect_eq_ok_iff.mpr ⟨h.decodable', hitems'⟩, hperm⟩

end File

namespace Formula

theorem read_eq_ok_iff {v : Vocabulary} {input : List UInt8} {f : Formula} :
    Formula.read v input = .ok f ↔
      File.Decodable input ∧ ∃ formulas,
        List.Forall₂ (fun line g => parse v line = .ok g) (File.contentLines input) formulas ∧
          f = ofClauses v.size (formulas.flatMap Formula.clauses) := by
  rw [Formula.read, map_eq_ok_iff]
  simp only [File.collect_eq_ok_iff, mapError_eq_ok_iff, and_assoc, exists_and_left,
    @eq_comm _ f]

/-- Constraints are read exactly when each line is. -/
theorem exists_read_iff {v : Vocabulary} {input : List UInt8} :
    (∃ f, Formula.read v input = .ok f) ↔
      File.Decodable input ∧ ∀ line ∈ File.contentLines input, ∃ f, parse v line = .ok f := by
  simp only [read_eq_ok_iff, ← exists_forall₂_iff]
  constructor
  · rintro ⟨f, hdecodable, formulas, hformulas, -⟩
    exact ⟨hdecodable, formulas, hformulas⟩
  · rintro ⟨hdecodable, formulas, hformulas⟩
    exact ⟨_, hdecodable, formulas, hformulas, rfl⟩

end Formula

end PreferenceLogic
