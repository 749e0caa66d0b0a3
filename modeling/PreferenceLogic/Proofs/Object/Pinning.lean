import PreferenceLogic.Proofs.Formula.Meaning

/-!
# Pinned formulas

A formula pinned to an object has a clause for every choice of the object. A valuation that
satisfies these clauses agrees with the object on all attributes, so asking whether the pinned
formula is satisfiable is evaluating the formula on the object.

Definitions:
* `Vocabulary.Settles`: whether one formula is satisfiable settles whether an object satisfies
  another one.

Results:
* `Object.eval_pinned_iff`: a valuation satisfies a pinned formula exactly when it satisfies the
  formula and extends the choices of the object.
* `Vocabulary.satisfiable_pinned_iff_eval`: if the formula stays within the attributes, the pinned
  formula is satisfiable exactly when the object satisfies it.
* `Vocabulary.reach_pinned`, `Vocabulary.atoms_pinned`: a pinned formula ranges over all attributes
  and all atoms of the formula, and each attribute occurs in it.
* `Vocabulary.settles_pinned`: pinning decides evaluation.
-/

namespace PreferenceLogic

namespace Object

variable {o : Object} {f : Formula} {w : Valuation}

/-- The added clauses hold when the valuation extends the choices of the object. -/
theorem eval_pinned_iff :
    (o.pinned f).eval w = true ↔ (∀ l ∈ o.literals, l.eval w = true) ∧ f.eval w = true := by
  have hunits : (o.literals.map fun l => [l]).all (Clause.eval w) = true ↔
      ∀ l ∈ o.literals, l.eval w = true := by
    simp [Clause.eval]
  rw [pinned, Formula.eval_ofClauses, List.all_append, Bool.and_eq_true, hunits, and_comm,
    Formula.eval]

theorem satisfiable_pinned_iff :
    (o.pinned f).Satisfiable ↔
      ∃ w : Valuation, (∀ l ∈ o.literals, l.eval w = true) ∧ f.eval w = true :=
  exists_congr fun _ => eval_pinned_iff

end Object

namespace Vocabulary

variable {v : Vocabulary} {object : Object} {f : Formula}

/-! ## Satisfiability -/

/-- A valuation that extends the choices of an object has its values on the attributes. -/
theorem forall_literals_iff (h : object ∈ v.objects) {w : Valuation} :
    (∀ l ∈ object.literals, l.eval w = true) ↔
      ∀ atom < v.size, w atom = object.valuation atom := by
  simp [literals_of_mem h, Valuation.literals, Literal.eval]

theorem satisfiable_pinned_iff_eval (h : object ∈ v.objects) (hreach : f.reach ≤ v.size) :
    (object.pinned f).Satisfiable ↔ f.eval object.valuation = true := by
  rw [Object.satisfiable_pinned_iff]
  constructor
  · rintro ⟨w, hw, hf⟩
    rw [← hf]
    apply Formula.eval_congr
    intro atom hatom
    exact ((forall_literals_iff h).mp hw atom (by omega)).symm
  · intro hf
    exact ⟨object.valuation, (forall_literals_iff h).mpr fun _ _ => rfl, hf⟩

/-! ## Reach -/

/-- A pinned formula reaches all attributes, and beyond them as far as the formula does. -/
theorem reach_pinned (h : object ∈ v.objects) : (object.pinned f).reach = max v.size f.reach := by
  have hunits : reachOf (object.literals.map fun l => [l]) = v.size := by
    refine eq_of_forall_ge_iff fun n => ?_
    rw [reachOf_le_iff, literals_of_mem h, ← forall_lt_iff_le]
    simp [Valuation.literals]
  show reachOf (f.clauses ++ object.literals.map fun l => [l]) = max v.size f.reach
  rw [reachOf_append, hunits, max_comm, Formula.reach]

theorem atoms_pinned (h : object ∈ v.objects) : (object.pinned f).atoms = max v.size f.atoms := by
  have hreach : f.reach ≤ f.atoms := f.reachOf_le
  show max f.atoms (object.pinned f).reach = max v.size f.atoms
  rw [reach_pinned h]
  omega

/-! ## Pinning decides evaluation -/

/-- Whether a second formula is satisfiable settles whether an object satisfies the first one. -/
structure Settles (v : Vocabulary) (x : Object) (f pinned : Formula) : Prop where
  /-- The clauses of the formula come first, and then each choice in a clause of its own. -/
  clauses : pinned.clauses = f.clauses ++ x.literals.map fun l => [l]
  /-- There is one choice for each attribute, in their order. -/
  choices : x.literals.map Literal.atom = List.range v.size
  atoms : pinned.atoms = max v.size f.atoms
  /-- The values of the attributes are given, and atoms beyond them are free. -/
  satisfiable_iff : pinned.Satisfiable ↔
    ∃ w : Valuation, (∀ l ∈ x.literals, l.eval w = true) ∧ f.eval w = true
  /-- Where no atom beyond the attributes occurs, the choices decide every clause. -/
  decided : (∀ c ∈ f.clauses, ∀ l ∈ c, l.atom < v.size) →
    (pinned.Satisfiable ↔ ∀ c ∈ f.clauses, ∃ l ∈ c, l ∈ x.literals)
  /-- All valuations that satisfy the second formula agree on the attributes. -/
  unique : ∀ w u : Valuation, pinned.eval w = true → pinned.eval u = true →
    ∀ atom < v.size, w atom = u atom

/-- **Pinning decides evaluation.** For every object and any formula whatsoever, with empty clauses,
repeated literals or atoms that are no attributes, the formula pinned to the object is satisfiable
exactly when some valuation that extends the choices of the object satisfies the formula. If all its
atoms are attributes, this is when each clause has one of the choices among its literals. No other
values of the attributes satisfy the pinned formula. -/
theorem settles_pinned (h : object ∈ v.objects) (f : Formula) :
    v.Settles object f (object.pinned f) where
  clauses := rfl
  choices := by rw [literals_of_mem h, Valuation.map_atom_literals]
  atoms := atoms_pinned h
  satisfiable_iff := Object.satisfiable_pinned_iff
  decided hatoms := by
    have hreach : f.reach ≤ v.size := reachOf_le_iff.mpr hatoms
    rw [satisfiable_pinned_iff_eval h hreach, Formula.eval_iff_literals h hreach]
  unique w u hw hu atom hatom := by
    -- both have the value of the object
    have hvalue : ∀ w : Valuation, (object.pinned f).eval w = true →
        w atom = object.valuation atom := by
      intro w hw
      exact (forall_literals_iff h).mp (Object.eval_pinned_iff.mp hw).1 atom hatom
    rw [hvalue w hw, hvalue u hu]

/-- A clause that has a literal and its denial holds of every gift, so the other one decides: it
holds of the big gift and not of the small one. -/
theorem settles_pinned_gifts :
    ∃ big ∈ Formula.gifts.objects, ∃ small ∈ Formula.gifts.objects, ∃ f : Formula,
      big.labels = ["big".toList, "blue".toList] ∧ small.labels = ["small".toList, "red".toList] ∧
      f.clauses = [[⟨1, true⟩, ⟨1, false⟩, ⟨1, true⟩], [⟨0, true⟩]] ∧
      Formula.gifts.Settles big f (big.pinned f) ∧ (big.pinned f).Satisfiable ∧
      ¬ (small.pinned f).Satisfiable := by
  obtain ⟨f, hf⟩ : ∃ f : Formula,
      f.clauses = [[⟨1, true⟩, ⟨1, false⟩, ⟨1, true⟩], [⟨0, true⟩]] := ⟨.ofClauses 0 _, rfl⟩
  have hbig : Formula.gifts.object 2 ∈ Formula.gifts.objects := by decide
  have hsmall : Formula.gifts.object 1 ∈ Formula.gifts.objects := by decide
  have hatoms : ∀ c ∈ f.clauses, ∀ l ∈ c, l.atom < Formula.gifts.size := by
    rw [hf]
    decide
  have hsettles := settles_pinned hbig f
  refine ⟨_, hbig, _, hsmall, f, rfl, rfl, hf, hsettles, (hsettles.decided hatoms).mpr ?_, ?_⟩
  · rw [hf]
    decide
  · rw [(settles_pinned hsmall f).decided hatoms, hf]
    decide

end Vocabulary

end PreferenceLogic
