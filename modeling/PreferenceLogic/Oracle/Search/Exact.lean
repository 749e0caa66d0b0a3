import PreferenceLogic.Oracle.Search.Valid

/-!
# The search is exact

What a search answers is right: it finds a model of the clauses added so far if there is one, and
what it learns on the way changes none of its later answers.

The decided atoms of a path are pairwise different, because an atom that has its value does not
occur in what is left of the clauses. So the path determines a valuation.

Definitions:
* `Space.Explores`: what is found in a space and what becomes of it.

Results:
* `Space.explores`: a space is explored in this way.
* `Space.Explores.contains_iff`: exploring a space changes none of its valuations.
* `Search.solve_eq_none_iff`: no model is found exactly when no valuation satisfies the clauses.
* `Search.exists_of_solve_eq_some`: a model that is found belongs to a valuation that does.
-/

namespace PreferenceLogic

namespace Space

variable {v : Valuation} {atom : Nat}

/-! ## Regions -/

/-- The search in a region, which starts with nothing denied. -/
theorem valid_of_region (clauses : List Clause) :
    (Search.Outcome.ofRemnants (reachOf clauses + 1) (clauses.map Remnant.ofClause)).Valid
      (clauses.map Remnant.ofClause) := by
  refine Search.Outcome.valid_ofRemnants _ _ (List.range (reachOf clauses)) ?_ (by simp)
  rintro l ⟨r, hr, hl⟩
  obtain ⟨c, hc, rfl⟩ := List.mem_map.1 hr
  exact List.mem_range.2 (Nat.lt_of_lt_of_le (Clause.atom_lt_reach hl) (reach_le_reachOf hc))

theorem not_denied (clauses : List Clause) (l : Literal) :
    ¬ Remnant.Denied (clauses.map Remnant.ofClause) l := by
  rintro ⟨r, hr, hl⟩
  obtain ⟨c, -, rfl⟩ := List.mem_map.1 hr
  exact List.not_mem_nil hl

theorem all_left (clauses : List Clause) :
    (∀ r ∈ clauses.map Remnant.ofClause, r.left.eval v = true) ↔
      clauses.all (Clause.eval v) = true := by
  simp [Remnant.ofClause]

/-- A region without a result has no valuation. -/
theorem all_eq_false_of_refuted {clauses : List Clause} {conflict : Clause}
    {learnt : List Remnant}
    (h : (Search.Outcome.refuted conflict learnt).Valid (clauses.map Remnant.ofClause)) :
    clauses.all (Clause.eval v) = false := by
  rw [← Bool.not_eq_true]
  intro hall
  have := h.1 v (Search.Outcome.holds_of_left ((all_left clauses).2 hall))
  obtain ⟨l, hl, -⟩ := List.any_eq_true.1 this
  exact not_denied clauses l (h.2.1 l hl)

/-! ## Exploration -/

/-- What is found in a space and what becomes of it. Each side of a decision is explored once, and
a side without a result is closed. -/
inductive Explores : Space → Option (List Literal) → Space → Prop
  | closed : Explores closed none closed
  | found {clauses : List Clause} {path : List Literal} {space : Space} :
      (Search.Outcome.found path space).Valid (clauses.map Remnant.ofClause) →
      Explores (region clauses) (some path) space
  | refuted {clauses : List Clause} {conflict : Clause} {learnt : List Remnant} :
      (Search.Outcome.refuted conflict learnt).Valid (clauses.map Remnant.ofClause) →
      Explores (region clauses) none closed
  | low {atom : Nat} {low low' high : Space} {path : List Literal} :
      Explores low (some path) low' →
      Explores (split atom low high) (some (⟨atom, false⟩ :: path)) (split atom low' high)
  | high {atom : Nat} {low low' high high' : Space} {path : List Literal} :
      Explores low none low' → Explores high (some path) high' →
      Explores (split atom low high) (some (⟨atom, true⟩ :: path)) (split atom closed high')
  | neither {atom : Nat} {low low' high high' : Space} :
      Explores low none low' → Explores high none high' →
      Explores (split atom low high) none closed

theorem explores (s : Space) : Explores s s.explore.1 s.explore.2 := by
  induction s with
  | closed => exact .closed
  | region clauses =>
    have hvalid := valid_of_region clauses
    simp only [explore]
    split
    · rename_i path space heq
      exact .found (heq ▸ hvalid)
    · rename_i conflict learnt heq
      exact .refuted (heq ▸ hvalid)
  | split atom low high ihLow ihHigh =>
    simp only [explore]
    split
    · rename_i path low' hlow
      rw [hlow] at ihLow
      exact .low ihLow
    · rename_i low' hlow
      rw [hlow] at ihLow
      split
      · rename_i path high' hhigh
        rw [hhigh] at ihHigh
        exact .high ihLow ihHigh
      · rename_i high' hhigh
        rw [hhigh] at ihHigh
        exact .neither ihLow ihHigh

namespace Explores

variable {s t : Space} {result : Option (List Literal)}

/-- Exploring a space changes none of its valuations. A space that is explored without a result has
none. -/
theorem contains_iff (h : Explores s result t) :
    (t.Contains v ↔ s.Contains v) ∧ (result = none → ¬ s.Contains v) := by
  induction h with
  | closed => simp [Contains]
  | @found clauses _ _ hvalid =>
    refine ⟨?_, by simp⟩
    rw [hvalid.1 v fun l hl => absurd hl (not_denied clauses l), all_left, Contains]
  | refuted hvalid => simp [Contains, all_eq_false_of_refuted hvalid]
  | low _ ih =>
    simp only [Contains, reduceCtorEq, false_implies, and_true]
    split
    · rfl
    · exact ih.1
  | high _ _ ihLow ihHigh =>
    simp only [Contains, reduceCtorEq, false_implies, and_true]
    split
    · exact ihHigh.1
    · simpa using ihLow.2 rfl
  | @neither atom low _ high _ _ _ ihLow ihHigh =>
    have hnot : ¬ (split atom low high).Contains v := by
      simp only [Contains]
      split
      · exact ihHigh.2 rfl
      · exact ihLow.2 rfl
    exact ⟨by simpa [Contains] using hnot, fun _ => hnot⟩

/-- A valuation on the path that is found is in the space. -/
theorem contains_of_follows (h : Explores s result t) {path : List Literal}
    (hpath : result = some path) (hv : Follows v path) : s.Contains v := by
  induction h generalizing path with
  | closed | refuted | neither => simp at hpath
  | @found clauses _ _ hvalid =>
    obtain rfl := Option.some.inj hpath
    exact (all_left clauses).1 (hvalid.2.1 v hv)
  | @low atom _ _ _ _ _ ih =>
    obtain rfl := Option.some.inj hpath
    rw [follows_cons] at hv
    have hatom : v atom = false := by simpa [Literal.eval] using hv.1
    simpa [Contains, hatom] using ih rfl hv.2
  | @high atom _ _ _ _ _ _ _ _ ih =>
    obtain rfl := Option.some.inj hpath
    rw [follows_cons] at hv
    have hatom : v atom = true := by simpa [Literal.eval] using hv.1
    simpa [Contains, hatom] using ih rfl hv.2

theorem avoids (h : Explores s result t) (hs : s.Avoids atom) :
    t.Avoids atom ∧ ∀ path, result = some path → ∀ l ∈ path, l.atom ≠ atom := by
  induction h with
  | closed | refuted | neither => simp [Avoids]
  | found hvalid =>
    have hfree := hvalid.2.2.1 atom (by
      rintro l ⟨r, hr, hl⟩
      obtain ⟨c, hc, rfl⟩ := List.mem_map.1 hr
      exact hs c hc l hl)
    exact ⟨hfree.1, fun path' hpath => Option.some.inj hpath ▸ hfree.2⟩
  | low _ ih =>
    obtain ⟨hne, hlow, hhigh⟩ := hs
    refine ⟨⟨hne, (ih hlow).1, hhigh⟩, fun path hpath => ?_⟩
    obtain rfl := Option.some.inj hpath
    exact List.forall_mem_cons.2 ⟨hne, (ih hlow).2 _ rfl⟩
  | high _ _ _ ih =>
    obtain ⟨hne, -, hhigh⟩ := hs
    refine ⟨⟨hne, trivial, (ih hhigh).1⟩, fun path hpath => ?_⟩
    obtain rfl := Option.some.inj hpath
    exact List.forall_mem_cons.2 ⟨hne, (ih hhigh).2 _ rfl⟩

theorem decided (h : Explores s result t) (hs : s.Decided) :
    t.Decided ∧ ∀ path, result = some path → Distinct path := by
  induction h with
  | closed | refuted | neither => simp [Decided]
  | found hvalid =>
    exact ⟨hvalid.2.2.2.1, fun path' hpath => Option.some.inj hpath ▸ hvalid.2.2.2.2⟩
  | low hexplores ih =>
    obtain ⟨hlow, hhigh, dlow, dhigh⟩ := hs
    have hfree := hexplores.avoids hlow
    refine ⟨⟨hfree.1, hhigh, (ih dlow).1, dhigh⟩, fun path hpath => ?_⟩
    obtain rfl := Option.some.inj hpath
    exact distinct_cons ((ih dlow).2 _ rfl) (hfree.2 _ rfl)
  | high _ hexplores _ ih =>
    obtain ⟨-, hhigh, -, dhigh⟩ := hs
    have hfree := hexplores.avoids hhigh
    refine ⟨⟨trivial, hfree.1, trivial, (ih dhigh).1⟩, fun path hpath => ?_⟩
    obtain rfl := Option.some.inj hpath
    exact distinct_cons ((ih dhigh).2 _ rfl) (hfree.2 _ rfl)

end Explores

end Space

/-! ## Answers -/

namespace Search

theorem eq_of_distinct {path : List Literal} (h : Distinct path) {l m : Literal}
    (hl : l ∈ path) (hm : m ∈ path) (hatom : l.atom = m.atom) : l = m := by
  induction path with
  | nil => simp at hl
  | cons first rest ih =>
    obtain ⟨hfirst, hrest⟩ := List.pairwise_cons.1 h
    rcases List.mem_cons.1 hl with rfl | hl'
    · rcases List.mem_cons.1 hm with rfl | hm'
      · rfl
      · exact absurd hatom (hfirst m hm')
    · rcases List.mem_cons.1 hm with rfl | hm'
      · exact absurd hatom.symm (hfirst l hl')
      · exact ih hrest hl' hm'

theorem follows_valuationOf {path : List Literal} (h : Distinct path) :
    Follows (valuationOf path) path := by
  rintro ⟨atom, positive⟩ hl
  cases positive with
  | true => simpa [Literal.eval, valuationOf] using hl
  | false =>
    have hnot : ⟨atom, true⟩ ∉ path := fun hmem => by
      simpa using eq_of_distinct h hmem hl rfl
    simpa [Literal.eval, valuationOf] using hnot

/-- A search holds some clauses: its valuations are those that satisfy them, and it knows how far
they reach. -/
structure Holds (s : Search) (clauses : List Clause) : Prop where
  reach_eq : s.reach = reachOf clauses
  contains_iff (v : Valuation) : s.space.Contains v ↔ clauses.all (Clause.eval v) = true
  decided : s.space.Decided

theorem holds_empty : Holds empty [] where
  reach_eq := rfl
  contains_iff v := by simp [empty, Space.Contains]
  decided := trivial

variable {s : Search} {clauses : List Clause}

theorem Holds.add (h : s.Holds clauses) (c : Clause) : (s.add c).Holds (c :: clauses) where
  reach_eq := by
    simp [Search.add, h.reach_eq, reachOf, Nat.max_comm]
  contains_iff v := by
    simp [Search.add, Space.contains_add, h.contains_iff, and_comm]
  decided := Space.decided_add h.decided

theorem Holds.solve (h : s.Holds clauses) : s.solve.2.Holds clauses := by
  have hcontains := fun v => (s.space.explores.contains_iff (v := v)).1
  have hdecided := (s.space.explores.decided h.decided).1
  unfold Search.solve
  split
  · rename_i space heq
    rw [heq] at hcontains hdecided
    exact ⟨h.reach_eq, fun v => (hcontains v).trans (h.contains_iff v), hdecided⟩
  · rename_i path space heq
    rw [heq] at hcontains hdecided
    exact ⟨h.reach_eq, fun v => (hcontains v).trans (h.contains_iff v), hdecided⟩

/-- A model that is found belongs to a valuation that satisfies the clauses. -/
theorem exists_of_solve_eq_some (h : s.Holds clauses) {model : List Literal}
    (hmodel : s.solve.1 = some model) :
    ∃ v : Valuation, clauses.all (Clause.eval v) = true ∧
      model = v.literals (reachOf clauses) := by
  unfold Search.solve at hmodel
  split at hmodel
  · simp at hmodel
  · rename_i path space heq
    simp only [Option.some.injEq] at hmodel
    refine ⟨valuationOf path, ?_, by rw [← hmodel, h.reach_eq]⟩
    rw [← h.contains_iff]
    have hpath : s.space.explore.1 = some path := by rw [heq]
    have hdistinct : Distinct path := (s.space.explores.decided h.decided).2 path hpath
    exact s.space.explores.contains_of_follows hpath (follows_valuationOf hdistinct)

/-- No model is found exactly when no valuation satisfies the clauses. -/
theorem solve_eq_none_iff (h : s.Holds clauses) :
    s.solve.1 = none ↔ ∀ v : Valuation, clauses.all (Clause.eval v) = false := by
  constructor
  · intro hnone v
    rw [← Bool.not_eq_true, ← h.contains_iff]
    apply s.space.explores.contains_iff.2
    unfold Search.solve at hnone
    split at hnone
    · rename_i space heq
      rw [heq]
    · simp at hnone
  · intro hall
    cases hsolve : s.solve.1 with
    | none => rfl
    | some model =>
      obtain ⟨v, hv, -⟩ := exists_of_solve_eq_some h hsolve
      rw [hall v] at hv
      simp at hv

end Search

end PreferenceLogic
