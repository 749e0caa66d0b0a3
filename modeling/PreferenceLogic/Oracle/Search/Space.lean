import PreferenceLogic.Formula.Basic

/-!
# Spaces of valuations

A space is a tree of the valuations that are still possible. A node decides an atom, a leaf holds
the clauses that are not yet satisfied on the way to it, and a closed leaf holds no valuation. A
clause that is added later goes down the tree, so what was searched already is not searched again.

Definitions:
* `Space.Contains`: the valuations in a space.
* `Space.add`: the valuations of a space that also satisfy a clause.
* `Space.Decided`: an atom that is decided does not occur below.

Results:
* `Clause.eval_of_given_eq_none`, `Clause.eval_eq_of_given`: what is left of a clause means the same
  as the clause, once the atom has its value.
* `Space.contains_add`, `Space.contains_branch`: what the operations do to the set of valuations.
* `Space.decided_add`: adding a clause decides nothing twice.
-/

namespace PreferenceLogic

/-! ## Clauses under a partial valuation -/

namespace Clause

/-- What is left of a clause once an atom has a value; nothing if the clause is satisfied. -/
def given (atom : Nat) (value : Bool) (c : Clause) : Option Clause :=
  if c.contains ⟨atom, value⟩ then none else some (c.filter fun l => l.atom != atom)

variable {atom : Nat} {value : Bool} {c rest : Clause} {v : Valuation}

theorem eq_filter_of_given (h : c.given atom value = some rest) :
    rest = c.filter (fun l => l.atom != atom) ∧ ⟨atom, value⟩ ∉ c := by
  unfold given at h
  split at h
  · simp at h
  · rename_i hc
    exact ⟨by simpa using h.symm, by simpa using hc⟩

theorem mem_of_mem_given (h : c.given atom value = some rest) {l : Literal} (hl : l ∈ rest) :
    l ∈ c ∧ l.atom ≠ atom := by
  rw [(eq_filter_of_given h).1, List.mem_filter] at hl
  simpa using hl

theorem eval_of_given_eq_none (h : c.given atom value = none) (hv : v atom = value) :
    c.eval v = true := by
  unfold given at h
  split at h
  · rename_i hc
    exact List.any_eq_true.2 ⟨⟨atom, value⟩, by simpa using hc, by simp [Literal.eval, hv]⟩
  · simp at h

theorem eval_eq_of_given (h : c.given atom value = some rest) (hv : v atom = value) :
    c.eval v = rest.eval v := by
  obtain ⟨rfl, hnot⟩ := eq_filter_of_given h
  rw [eval, eval, Bool.eq_iff_iff, List.any_eq_true, List.any_eq_true]
  constructor
  · rintro ⟨l, hl, he⟩
    refine ⟨l, List.mem_filter.2 ⟨hl, ?_⟩, he⟩
    simp only [bne_iff_ne, ne_eq]
    rintro rfl
    apply hnot
    have : l = ⟨l.atom, value⟩ := by
      simp only [Literal.eval, hv, beq_iff_eq] at he
      cases l; simp_all
    exact this ▸ hl
  · rintro ⟨l, hl, he⟩
    exact ⟨l, (List.mem_filter.1 hl).1, he⟩

end Clause

/-! ## Spaces -/

/-- A set of valuations. -/
inductive Space where
  /-- No valuation. -/
  | closed
  /-- The valuations that satisfy some clauses. -/
  | region (clauses : List Clause)
  /-- The valuations of one space where an atom is false, of another one where it is true. -/
  | split (atom : Nat) (low high : Space)
deriving Repr

namespace Space

/-- Whether a valuation is in a space. -/
def Contains (v : Valuation) : Space → Prop
  | closed => False
  | region clauses => clauses.all (Clause.eval v) = true
  | split atom low high => if v atom then high.Contains v else low.Contains v

/-- The valuations of a space that satisfy a clause. -/
def add (c : Clause) : Space → Space
  | closed => closed
  | region clauses => region (c :: clauses)
  | split atom low high =>
    split atom
      (match c.given atom false with
        | none => low
        | some rest => low.add rest)
      (match c.given atom true with
        | none => high
        | some rest => high.add rest)

/-- The valuations of one space where a literal holds, and of another one where it does not. -/
def branch (l : Literal) (holds fails : Space) : Space :=
  if l.positive then split l.atom fails holds else split l.atom holds fails

variable {v : Valuation} {atom : Nat}

theorem contains_add {c : Clause} {s : Space} :
    (s.add c).Contains v ↔ s.Contains v ∧ c.eval v = true := by
  induction s generalizing c with
  | closed => simp [add, Contains]
  | region clauses => simp [add, Contains, and_comm]
  | split atom low high ihLow ihHigh =>
    simp only [add, Contains]
    split
    · rename_i hv
      split
      · rename_i hc
        simp [Clause.eval_of_given_eq_none hc hv]
      · rename_i rest hc
        rw [ihHigh, Clause.eval_eq_of_given hc hv]
    · rename_i hv
      have hv : v atom = false := by simpa using hv
      split
      · rename_i hc
        simp [Clause.eval_of_given_eq_none hc hv]
      · rename_i rest hc
        rw [ihLow, Clause.eval_eq_of_given hc hv]

theorem contains_branch {l : Literal} {holds fails : Space} :
    (branch l holds fails).Contains v ↔
      if l.eval v then holds.Contains v else fails.Contains v := by
  obtain ⟨atom, positive⟩ := l
  cases positive <;> cases hv : v atom <;> simp [branch, Contains, Literal.eval, hv]

/-! ## Decided atoms do not occur again -/

/-- An atom does not occur in a space. -/
def Avoids (atom : Nat) : Space → Prop
  | closed => True
  | region clauses => ∀ c ∈ clauses, ∀ l ∈ c, l.atom ≠ atom
  | split other low high => other ≠ atom ∧ low.Avoids atom ∧ high.Avoids atom

/-- An atom that is decided does not occur below. -/
def Decided : Space → Prop
  | closed => True
  | region _ => True
  | split atom low high =>
    low.Avoids atom ∧ high.Avoids atom ∧ low.Decided ∧ high.Decided

theorem avoids_branch {l : Literal} {holds fails : Space} :
    (branch l holds fails).Avoids atom ↔
      l.atom ≠ atom ∧ holds.Avoids atom ∧ fails.Avoids atom := by
  unfold branch
  split <;> simp [Avoids, and_comm]

theorem decided_branch {l : Literal} {holds fails : Space} :
    (branch l holds fails).Decided ↔
      holds.Avoids l.atom ∧ fails.Avoids l.atom ∧ holds.Decided ∧ fails.Decided := by
  unfold branch
  split <;> simp [Decided, and_comm, and_left_comm]

theorem avoids_add {c : Clause} {s : Space} (hs : s.Avoids atom) (hc : ∀ l ∈ c, l.atom ≠ atom) :
    (s.add c).Avoids atom := by
  induction s generalizing c with
  | closed => trivial
  | region clauses => exact List.forall_mem_cons.2 ⟨hc, hs⟩
  | split other low high ihLow ihHigh =>
    refine ⟨hs.1, ?_, ?_⟩
    · split
      · exact hs.2.1
      · rename_i rest hrest
        exact ihLow hs.2.1 fun l hl => hc l (Clause.mem_of_mem_given hrest hl).1
    · split
      · exact hs.2.2
      · rename_i rest hrest
        exact ihHigh hs.2.2 fun l hl => hc l (Clause.mem_of_mem_given hrest hl).1

theorem decided_add {c : Clause} {s : Space} (hs : s.Decided) : (s.add c).Decided := by
  induction s generalizing c with
  | closed => trivial
  | region clauses => trivial
  | split atom low high ihLow ihHigh =>
    obtain ⟨hlow, hhigh, dlow, dhigh⟩ := hs
    simp only [add]
    refine ⟨?_, ?_, ?_, ?_⟩
    · split
      · exact hlow
      · rename_i rest hrest
        exact avoids_add hlow fun l hl => (Clause.mem_of_mem_given hrest hl).2
    · split
      · exact hhigh
      · rename_i rest hrest
        exact avoids_add hhigh fun l hl => (Clause.mem_of_mem_given hrest hl).2
    · split
      · exact dlow
      · exact ihLow dlow
    · split
      · exact dhigh
      · exact ihHigh dhigh

end Space

end PreferenceLogic
