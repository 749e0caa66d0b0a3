/-!
# Looking up rows by number

The rows of a table stand in the increasing order of their numbers. The row with a given number is
found by halving: the row in the middle tells in which half to go on.

Definitions:
* `lookup?`: the row with a given number.

Results:
* `lookup?_eq_some_iff`: in rows whose numbers increase, exactly the row with the number is found.
* `lookup?_map`: rows that are made from other things are looked up by those.
-/

namespace PreferenceLogic

variable {α : Type} {number : α → Nat} {wanted : Nat}

/-- Looks for the row with a given number among the rows from `first` on and before `last`. -/
def lookupBetween (number : α → Nat) (wanted : Nat) (rows : Array α) (first last : Nat)
    (hlast : last ≤ rows.size) : Option α :=
  if h : first < last then
    let middle := first + (last - first) / 2
    have : middle < rows.size := by omega
    if number rows[middle] = wanted then some rows[middle]
    else if number rows[middle] < wanted then
      lookupBetween number wanted rows (middle + 1) last hlast
    else lookupBetween number wanted rows first middle (by omega)
  else none
termination_by last - first

/-- The row with a given number, in rows whose numbers increase. -/
def lookup? (number : α → Nat) (rows : List α) (wanted : Nat) : Option α :=
  lookupBetween number wanted rows.toArray 0 rows.toArray.size (Nat.le_refl _)

/-- What is found is a row and has the number. This needs no order of the rows. -/
theorem lookupBetween_sound {rows : Array α} {first last : Nat} {hlast : last ≤ rows.size} {row : α}
    (h : lookupBetween number wanted rows first last hlast = some row) :
    row ∈ rows ∧ number row = wanted := by
  fun_induction lookupBetween number wanted rows first last hlast with
  | case1 first last hlast hlt middle hmiddle heq =>
    simp only [Option.some.injEq] at h
    subst h
    exact ⟨Array.getElem_mem hmiddle, heq⟩
  | case2 first last hlast hlt middle hmiddle hne hless ih => exact ih h
  | case3 first last hlast hlt middle hmiddle hne hless ih => exact ih h
  | case4 => simp at h

theorem lookupBetween_complete {rows : Array α}
    (hsorted : (rows.toList.map number).Pairwise (· < ·)) {first last : Nat}
    {hlast : last ≤ rows.size} {k : Nat} (hsize : k < rows.size) (hfirst : first ≤ k)
    (hk : k < last) (hnumber : number rows[k] = wanted) :
    lookupBetween number wanted rows first last hlast = some rows[k] := by
  have hmono : ∀ i j (hi : i < rows.size) (hj : j < rows.size), i < j →
      number rows[i] < number rows[j] := by
    intro i j hi hj hij
    have := List.pairwise_iff_getElem.mp hsorted i j (by simpa using hi) (by simpa using hj) hij
    simpa using this
  fun_induction lookupBetween number wanted rows first last hlast with
  | case1 first last hlast hlt middle hmiddle heq =>
    -- two rows with the same number are the same row
    have : middle = k := by
      rcases Nat.lt_trichotomy middle k with h | h | h
      · have := hmono middle k hmiddle hsize h
        omega
      · exact h
      · have := hmono k middle hsize hmiddle h
        omega
    subst this
    rfl
  | case2 first last hlast hlt middle hmiddle hne hless ih =>
    have : middle < k := by
      rcases Nat.lt_trichotomy middle k with h | h | h
      · exact h
      · subst h; omega
      · have := hmono k middle hsize hmiddle h
        omega
    exact ih (by omega) hk
  | case3 first last hlast hlt middle hmiddle hne hless ih =>
    have : k < middle := by
      rcases Nat.lt_trichotomy middle k with h | h | h
      · have := hmono middle k hmiddle hsize h
        omega
      · subst h; omega
      · exact h
    exact ih hfirst this
  | case4 => omega

theorem lookup?_eq_some_iff {rows : List α} (hsorted : (rows.map number).Pairwise (· < ·))
    {row : α} : lookup? number rows wanted = some row ↔ row ∈ rows ∧ number row = wanted := by
  constructor
  · intro h
    obtain ⟨hmem, hnumber⟩ := lookupBetween_sound h
    exact ⟨by simpa using hmem, hnumber⟩
  · rintro ⟨hmem, hnumber⟩
    obtain ⟨k, hk, rfl⟩ := List.mem_iff_getElem.mp hmem
    have hsize : k < rows.toArray.size := by simpa using hk
    rw [lookup?, lookupBetween_complete (by simpa using hsorted) hsize (Nat.zero_le k) hsize
      (by simpa using hnumber)]
    simp

/-- Looking up a row that is made from something finds what it is made from. -/
theorem lookup?_map {β : Type} {f : β → α} {l : List β}
    (hsorted : (l.map (number ∘ f)).Pairwise (· < ·)) :
    lookup? number (l.map f) wanted = (lookup? (number ∘ f) l wanted).map f := by
  ext row
  rw [lookup?_eq_some_iff (by rwa [List.map_map]), Option.map_eq_some_iff, List.mem_map]
  simp only [lookup?_eq_some_iff hsorted]
  constructor
  · rintro ⟨⟨x, hx, rfl⟩, hnumber⟩
    exact ⟨x, ⟨hx, hnumber⟩, rfl⟩
  · rintro ⟨x, ⟨hx, hnumber⟩, rfl⟩
    exact ⟨⟨x, hx, rfl⟩, hnumber⟩

theorem lookup?_isSome_iff {rows : List α} (hsorted : (rows.map number).Pairwise (· < ·)) :
    (lookup? number rows wanted).isSome ↔ wanted ∈ rows.map number := by
  rw [Option.isSome_iff_exists, List.mem_map]
  constructor
  · rintro ⟨row, h⟩
    exact ⟨row, (lookup?_eq_some_iff hsorted).mp h⟩
  · rintro ⟨row, h⟩
    exact ⟨row, (lookup?_eq_some_iff hsorted).mpr h⟩

end PreferenceLogic
