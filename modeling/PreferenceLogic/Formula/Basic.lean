import PreferenceLogic.Text.Blank

/-!
# Literals, clauses and formulas

A formula is a conjunction of clauses and a clause a disjunction of literals, over the atoms
`0, 1, …`. A formula also knows how many atoms it ranges over: at least those that occur in it.

Definitions:
* `Formula.ofClauses`: the formula of given clauses over at least a given number of atoms.
* `Formula.eval`, `Formula.Satisfiable`: truth under a valuation, and under some valuation.
* `Formula.reach`: the number of atoms up to the last one that occurs.
* `Formula.IsModel`: the models of a formula, one literal for each atom within its reach.

Results:
* `Formula.eval_congr`: the atoms within reach decide the truth of a formula.
* `Formula.eval_ofClauses`: only the clauses matter for the truth of a formula.
-/

namespace PreferenceLogic

/-! ## Literals -/

/-- An atom or its denial. -/
structure Literal where
  /-- The atom, counted from zero. -/
  atom : Nat
  /-- Whether the atom is asserted. -/
  positive : Bool
deriving DecidableEq, Repr

namespace Literal

/-- The literal that holds exactly when this one does not. -/
def negate (l : Literal) : Literal := { l with positive := !l.positive }

/-- The number of a literal: the atom counted from one, with a minus sign for a denial. -/
def number (l : Literal) : Int := if l.positive then l.atom + 1 else -(l.atom + 1)

/-- The literal with a given number. No literal has the number zero. -/
def ofNumber? (n : Int) : Option Literal :=
  if n = 0 then none else some ⟨n.natAbs - 1, 0 < n⟩

@[simp] theorem negate_negate (l : Literal) : l.negate.negate = l := by
  simp [negate]

/-- An atom has two literals. -/
theorem eq_or_eq_negate {l m : Literal} (h : m.atom = l.atom) : m = l ∨ m = l.negate := by
  obtain ⟨a, p⟩ := m
  obtain ⟨b, q⟩ := l
  obtain rfl : a = b := h
  cases p <;> cases q <;> simp [negate]

theorem ofNumber?_number (l : Literal) : ofNumber? l.number = some l := by
  obtain ⟨atom, positive⟩ := l
  cases positive <;> simp [number, ofNumber?] <;> omega

theorem number_inj {l m : Literal} : l.number = m.number ↔ l = m := by
  constructor
  · intro h
    have := ofNumber?_number l
    rw [h, ofNumber?_number] at this
    simpa using this.symm
  · exact fun h => h ▸ rfl

/-- Literals are ordered by their numbers. -/
instance : Ord Literal := ⟨compareOn number⟩

instance : Std.TransOrd Literal := inferInstanceAs (Std.TransCmp (compareOn number))

instance : Std.LawfulEqOrd Literal where
  eq_of_compare h := number_inj.1 (Std.LawfulEqOrd.eq_of_compare (α := Int) h)

end Literal

/-! ## Valuations -/

/-- A truth value for every atom. -/
abbrev Valuation := Nat → Bool

namespace Valuation

/-- The literals that hold among the first atoms, in the order of the atoms. -/
def literals (v : Valuation) (atoms : Nat) : List Literal :=
  (List.range atoms).map fun atom => ⟨atom, v atom⟩

@[simp] theorem length_literals (v : Valuation) (atoms : Nat) :
    (v.literals atoms).length = atoms := by
  simp [literals]

end Valuation

/-- Whether a literal holds under a valuation. -/
def Literal.eval (v : Valuation) (l : Literal) : Bool := v l.atom == l.positive

@[simp] theorem Literal.eval_negate (v : Valuation) (l : Literal) :
    l.negate.eval v = !l.eval v := by
  cases h : v l.atom <;> cases h' : l.positive <;> simp [eval, negate, h, h']

/-! ## Clauses -/

/-- A disjunction of literals. -/
abbrev Clause := List Literal

namespace Clause

/-- Whether some literal of a clause holds under a valuation. -/
def eval (v : Valuation) (c : Clause) : Bool := c.any (Literal.eval v)

/-- The number of atoms up to the last one that occurs in a clause. -/
def reach (c : Clause) : Nat := c.foldr (fun l bound => max (l.atom + 1) bound) 0

theorem atom_lt_reach {c : Clause} {l : Literal} (h : l ∈ c) : l.atom < reach c := by
  induction c with
  | nil => simp at h
  | cons head rest ih =>
    simp only [reach, List.foldr_cons]
    rcases List.mem_cons.1 h with rfl | h
    · omega
    · have := ih h
      simp only [reach] at this
      omega

end Clause

/-- The number of atoms up to the last one that occurs in some clause. -/
def reachOf (clauses : List Clause) : Nat :=
  clauses.foldr (fun c bound => max (Clause.reach c) bound) 0

theorem reach_le_reachOf {clauses : List Clause} {c : Clause} (h : c ∈ clauses) :
    Clause.reach c ≤ reachOf clauses := by
  induction clauses with
  | nil => simp at h
  | cons head rest ih =>
    simp only [reachOf, List.foldr_cons]
    rcases List.mem_cons.1 h with rfl | h
    · omega
    · have := ih h
      simp only [reachOf] at this
      omega

/-! ## Formulas -/

/-- A conjunction of clauses over a number of atoms. -/
structure Formula where
  clauses : List Clause
  /-- The number of atoms that the formula ranges over. -/
  atoms : Nat
  /-- Every atom that occurs is one of them. -/
  reachOf_le : reachOf clauses ≤ atoms
deriving DecidableEq, Repr

namespace Formula

/-- The formula of some clauses over at least a given number of atoms, more if they occur. -/
def ofClauses (atoms : Nat) (clauses : List Clause) : Formula where
  clauses := clauses
  atoms := max atoms (reachOf clauses)
  reachOf_le := Nat.le_max_right _ _

@[simp] theorem clauses_ofClauses (atoms : Nat) (clauses : List Clause) :
    (ofClauses atoms clauses).clauses = clauses := rfl

/-- Two formulas with the same clauses over as many atoms are the same. -/
@[ext] theorem ext {f g : Formula} (clauses : f.clauses = g.clauses) (atoms : f.atoms = g.atoms) :
    f = g := by
  cases f; cases g; simp_all

/-- The number of atoms up to the last one that occurs. -/
def reach (f : Formula) : Nat := reachOf f.clauses

/-- Whether every clause of a formula holds under a valuation. -/
def eval (v : Valuation) (f : Formula) : Bool := f.clauses.all (Clause.eval v)

/-- Some valuation makes the formula true. -/
def Satisfiable (f : Formula) : Prop := ∃ v : Valuation, f.eval v = true

/-- The models of a formula: for a valuation that makes it true, the literals that hold among the
atoms within reach. -/
def IsModel (f : Formula) (model : List Literal) : Prop :=
  ∃ v : Valuation, f.eval v = true ∧ model = v.literals f.reach

theorem eval_ofClauses (v : Valuation) (atoms : Nat) (clauses : List Clause) :
    (ofClauses atoms clauses).eval v = clauses.all (Clause.eval v) := rfl

/-- Valuations that agree on the atoms within reach agree on the formula. -/
theorem eval_congr {f : Formula} {v w : Valuation} (h : ∀ atom < f.reach, v atom = w atom) :
    f.eval v = f.eval w := by
  have agree : ∀ c ∈ f.clauses, Clause.eval v c = Clause.eval w c := by
    intro c hc
    simp only [Clause.eval]
    rw [Bool.eq_iff_iff, List.any_eq_true, List.any_eq_true]
    have hl : ∀ l ∈ c, Literal.eval v l = Literal.eval w l := fun l hl => by
      have := h l.atom (Nat.lt_of_lt_of_le (Clause.atom_lt_reach hl) (reach_le_reachOf hc))
      simp [Literal.eval, this]
    constructor
    · rintro ⟨l, hlc, he⟩
      exact ⟨l, hlc, hl l hlc ▸ he⟩
    · rintro ⟨l, hlc, he⟩
      exact ⟨l, hlc, (hl l hlc).symm ▸ he⟩
  simp only [eval]
  rw [Bool.eq_iff_iff, List.all_eq_true, List.all_eq_true]
  constructor
  · exact fun hv c hc => agree c hc ▸ hv c hc
  · exact fun hw c hc => (agree c hc).symm ▸ hw c hc

end Formula

end PreferenceLogic
