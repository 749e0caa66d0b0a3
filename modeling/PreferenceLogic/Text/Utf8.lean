import PreferenceLogic.Text.Blank

/-!
# UTF-8 and lines of bytes

Files and terminals hold bytes. A line ends with the byte of the newline character; the last line
may lack it. Lines are cut before they are decoded, so a line that is no UTF-8 leaves the lines
before it readable.

Results:
* `Utf8.decode?_encode`: every text reads back from its bytes.
* `Utf8.lines_append`: at a line end, the lines of two pieces are the lines of the whole.
-/

namespace PreferenceLogic.Utf8

/-- The UTF-8 bytes of a text. -/
def encode (t : Text) : List UInt8 := t.flatMap String.utf8EncodeChar

/-- The text whose UTF-8 bytes are given, if there is one. -/
def decode? (bytes : List UInt8) : Option Text :=
  bytes.toByteArray.utf8Decode?.map Array.toList

theorem decode?_encode (t : Text) : decode? (encode t) = some t := by
  have h : (encode t).toByteArray = t.utf8Encode := rfl
  simp [decode?, h]

/-! ## Lines -/

/-- The byte that ends a line. -/
def newline : UInt8 := 10

/-- The lines of an input, without the bytes that end them. Nothing follows the last line end. -/
def lines : List UInt8 → List (List UInt8)
  | [] => []
  | b :: rest =>
    if b = newline then [] :: lines rest
    else match lines rest with
      | [] => [[b]]
      | line :: others => (b :: line) :: others

/-- An input that ends at a line end, or is empty. -/
def Complete (input : List UInt8) : Prop := input = [] ∨ input.getLast? = some newline

theorem Complete.tail {b : UInt8} {x : List UInt8} (h : Complete (b :: x)) (hx : x ≠ []) :
    Complete x := by
  right
  rcases h with h | h
  · cases h
  · rwa [List.getLast?_cons_of_ne_nil hx] at h

theorem lines_ne_nil {x : List UInt8} (h : x ≠ []) : lines x ≠ [] := by
  obtain ⟨b, x, rfl⟩ := List.exists_cons_of_ne_nil h
  rw [lines]
  split
  · exact List.cons_ne_nil _ _
  · split <;> exact List.cons_ne_nil _ _

theorem lines_append {x y : List UInt8} (h : Complete x) : lines (x ++ y) = lines x ++ lines y := by
  induction x with
  | nil => rfl
  | cons b x ih =>
    by_cases hnil : x = []
    · have hb : b = newline := by simpa [Complete, hnil] using h
      simp [hnil, lines, hb]
    · obtain ⟨line, others, hlines⟩ := List.exists_cons_of_ne_nil (lines_ne_nil hnil)
      simp only [List.cons_append, lines, ih (h.tail hnil), hlines]
      split <;> rfl

end PreferenceLogic.Utf8
