import PreferenceLogic.File.Error
import PreferenceLogic.Text.Utf8

/-!
# Content lines

A problem file is read line by line. Lines are trimmed; a line that is then empty, or starts with
the comment mark, says nothing. All lines count for the numbering, and a line is decoded when it is
reached, so the first line that cannot be read decides.

Definitions:
* `File.fold`: folds a step over the content lines of a file.

Results:
* `File.fold_induction`: what every step keeps holds of what is folded.
-/

namespace PreferenceLogic.File

/-- Starts a comment. -/
def commentMark : Char := '#'

/-- Whether a trimmed line says nothing. -/
def isSilent (line : Text) : Bool := line.isEmpty || line.head? == some commentMark

/-- Folds a step over the content lines among some lines, of which the first has the given
number. -/
def foldLines {α : Type} (step : α → Text → Except Fault α) :
    Nat → α → List (List UInt8) → Except ReadError α
  | _, state, [] => .ok state
  | number, state, line :: rest =>
    match Utf8.decode? line with
    | none => .error .undecodable
    | some text =>
      if isSilent (Text.trim text) then foldLines step (number + 1) state rest
      else match step state (Text.trim text) with
        | .error fault => .error (.line ⟨number, fault⟩)
        | .ok state => foldLines step (number + 1) state rest

/-- Folds a step over the content lines of a file. -/
def fold {α : Type} (step : α → Text → Except Fault α) (state : α) (input : List UInt8) :
    Except ReadError α :=
  foldLines step 1 state (Utf8.lines input)

/-- What every step keeps holds of what is folded. -/
theorem fold_induction {α : Type} {P : α → Prop} {step : α → Text → Except Fault α}
    {state result : α} {input : List UInt8} (hstart : P state)
    (hstep : ∀ a b t, P a → step a t = .ok b → P b) (h : fold step state input = .ok result) :
    P result := by
  unfold fold at h
  generalize 1 = number, Utf8.lines input = lines at h
  induction lines generalizing number state with
  | nil =>
    cases h
    exact hstart
  | cons line rest ih =>
    rw [foldLines] at h
    split at h
    · cases h
    · split at h
      · exact ih hstart _ h
      · split at h
        · cases h
        · rename_i next hnext
          exact ih (hstep _ _ _ hstart hnext) _ h

/-- Reads an item from each content line. -/
def collect {α : Type} (parse : Text → Except Fault α) (input : List UInt8) :
    Except ReadError (List α) :=
  (fold (fun items line => (parse line).map (· :: items)) [] input).map List.reverse

end PreferenceLogic.File
