import Mathlib.Data.Fintype.BigOperators
import PreferenceLogic.Oracle.Search.Exact
import PreferenceLogic.Oracle.Solver
import PreferenceLogic.Proofs.Feasibility

/-!
# Enumerating models

A solver is asked for a model again and again, and each model is excluded by a clause before the
next question. Each question takes exactly one valuation out of those that are left, so the models
come out one by one, every one of them once, and the last question finds none.

Definitions:
* `satisfying`: the valuations of the first atoms that satisfy some clauses.
* `Solver.Sound`: what is relied on of a solver.
* `Solver.Exhausts`: a solver is asked until no model is left.

Results:
* `satisfying_blocking`, `exists_model_iff`: the clause that excludes a model takes exactly this
  model out.
* `Solver.Sound.exists_exhausts`: the questions come to an end, and what they find.
* `Solver.Sound.exists_models`: the models of a formula are found, each of them once.
* `Oracle.reliable_ofSolver`: the oracle of a sound solver is correct and never fails.
* `Oracle.reliable_exact`: so is the oracle of the search.
-/

namespace PreferenceLogic

/-! ## Satisfying valuations -/

section

variable {n : ℕ} {clauses : List Clause} {v w : Valuation}

theorem all_eval_congr (hreach : reachOf clauses ≤ n) (h : ∀ atom < n, v atom = w atom) :
    clauses.all (Clause.eval v) = clauses.all (Clause.eval w) :=
  Formula.eval_congr (f := .ofClauses 0 clauses) fun atom hatom =>
    h atom (Nat.lt_of_lt_of_le hatom hreach)

/-- The valuation with given values for the first atoms. All others are false. -/
def extend (values : Fin n → Bool) : Valuation :=
  fun atom => if h : atom < n then values ⟨atom, h⟩ else false

/-- The values of the first atoms. -/
def restrict (n : ℕ) (v : Valuation) : Fin n → Bool := fun i => v i

theorem extend_restrict (v : Valuation) : ∀ atom < n, extend (restrict n v) atom = v atom := by
  intro atom hatom
  simp [extend, restrict, hatom]

@[simp] theorem restrict_extend (values : Fin n → Bool) : restrict n (extend values) = values := by
  funext i
  simp [extend, restrict]

theorem restrict_inj : restrict n v = restrict n w ↔ ∀ atom < n, v atom = w atom := by
  constructor
  · intro h atom hatom
    exact congrFun h ⟨atom, hatom⟩
  · intro h
    funext i
    exact h i i.isLt

/-- The values of the first atoms with which some clauses are true. -/
def satisfying (clauses : List Clause) (n : ℕ) : Finset (Fin n → Bool) :=
  Finset.univ.filter fun values => clauses.all (Clause.eval (extend values)) = true

theorem mem_satisfying {values : Fin n → Bool} :
    values ∈ satisfying clauses n ↔ clauses.all (Clause.eval (extend values)) = true := by
  simp [satisfying]

theorem restrict_mem_satisfying (hreach : reachOf clauses ≤ n) :
    restrict n v ∈ satisfying clauses n ↔ clauses.all (Clause.eval v) = true := by
  rw [mem_satisfying, all_eval_congr hreach (extend_restrict v)]

theorem card_satisfying_le : (satisfying clauses n).card ≤ 2 ^ n := by
  have h := Finset.card_le_univ (satisfying clauses n)
  simpa using h

/-! ## Excluding a model -/

theorem eval_blocking (v w : Valuation) :
    Clause.eval w (Solver.blocking (v.literals n)) = true ↔ ∃ atom < n, w atom ≠ v atom := by
  simp [Clause.eval, Solver.blocking, Valuation.literals, Literal.eval, Literal.negate,
    Bool.eq_not]

theorem reach_blocking_le (v : Valuation) :
    Clause.reach (Solver.blocking (v.literals n)) ≤ n := by
  rw [Clause.reach_le_iff]
  intro l hl
  obtain ⟨m, hm, rfl⟩ := List.mem_map.mp hl
  obtain ⟨atom, hatom, rfl⟩ := List.mem_map.mp hm
  exact List.mem_range.mp hatom

theorem reachOf_blocking (v : Valuation) (hreach : reachOf clauses = n) :
    reachOf (Solver.blocking (v.literals n) :: clauses) = n := by
  have h := reach_blocking_le (n := n) v
  rw [show reachOf (Solver.blocking (v.literals n) :: clauses) =
    max (Clause.reach (Solver.blocking (v.literals n))) (reachOf clauses) from rfl]
  omega

theorem satisfying_blocking (v : Valuation) :
    satisfying (Solver.blocking (v.literals n) :: clauses) n =
      (satisfying clauses n).erase (restrict n v) := by
  ext values
  have hne : values ≠ restrict n v ↔ ∃ atom < n, extend values atom ≠ v atom := by
    rw [← not_iff_not, not_not]
    rw [← restrict_extend values, restrict_inj]
    simp
  rw [Finset.mem_erase, mem_satisfying, mem_satisfying, List.all_cons, Bool.and_eq_true,
    eval_blocking, hne]

/-- Excluding a valuation leaves one less. -/
theorem card_satisfying_blocking (hreach : reachOf clauses = n)
    (hv : clauses.all (Clause.eval v) = true) :
    (satisfying clauses n).card =
      (satisfying (Solver.blocking (v.literals n) :: clauses) n).card + 1 := by
  have hmem : restrict n v ∈ satisfying clauses n :=
    (restrict_mem_satisfying (Nat.le_of_eq hreach)).mpr hv
  rw [satisfying_blocking, Finset.card_erase_add_one hmem]

/-- If no valuation satisfies some clauses, there are none of them to count. -/
theorem card_satisfying_eq_zero (h : ∀ v : Valuation, ¬ clauses.all (Clause.eval v) = true) :
    (satisfying clauses n).card = 0 := by
  rw [Finset.card_eq_zero, Finset.eq_empty_iff_forall_notMem]
  intro values hvalues
  exact h _ (mem_satisfying.mp hvalues)

/-- A model of some clauses is the excluded one, or it is a model of the clauses with the
exclusion. -/
theorem exists_model_iff (hv : clauses.all (Clause.eval v) = true) {model : List Literal} :
    (∃ w : Valuation, clauses.all (Clause.eval w) = true ∧ model = w.literals n) ↔
      model = v.literals n ∨ ∃ w : Valuation,
        (Solver.blocking (v.literals n) :: clauses).all (Clause.eval w) = true ∧
          model = w.literals n := by
  simp only [List.all_cons, Bool.and_eq_true, eval_blocking]
  constructor
  · intro h
    obtain ⟨w, hw, heq⟩ := h
    by_cases hagree : ∀ atom < n, w atom = v atom
    · exact .inl (heq.trans (Valuation.literals_inj.mpr hagree))
    · refine .inr ⟨w, ⟨?_, hw⟩, heq⟩
      simpa using hagree
  · intro h
    rcases h with rfl | ⟨w, ⟨-, hw⟩, rfl⟩
    · exact ⟨v, hv, rfl⟩
    · exact ⟨w, hw, rfl⟩

theorem not_exists_excluded :
    ¬ ∃ w : Valuation, (Solver.blocking (v.literals n) :: clauses).all (Clause.eval w) = true ∧
      v.literals n = w.literals n := by
  intro h
  obtain ⟨w, hw, heq⟩ := h
  rw [List.all_cons, Bool.and_eq_true, eval_blocking] at hw
  obtain ⟨⟨atom, hatom, hne⟩, -⟩ := hw
  exact hne (Valuation.literals_inj.mp heq atom hatom).symm

end

/-! ## Solvers -/

namespace Solver

/-- What is relied on of a solver, where `Holds t clauses` says that the clauses were added to the
state `t`: it never fails, it finds the clauses satisfiable exactly when they are, and then it has a
model that decides the atoms up to the last one that occurs. Which one is up to the solver. -/
structure Sound {τ : Type} (s : Solver τ) (Holds : τ → List Clause → Prop) : Prop where
  empty : Holds s.empty []
  add {t clauses} (c : Clause) : Holds t clauses → Holds (s.add c t) (c :: clauses)
  solve {t clauses} : Holds t clauses → ∃ answer t', s.solve t = (.ok answer, t') ∧
    Holds t' clauses ∧ (answer = true ↔ ∃ v : Valuation, clauses.all (Clause.eval v) = true)
  model {t t' clauses} : Holds t clauses → s.solve t = (.ok true, t') →
    ∃ v : Valuation, clauses.all (Clause.eval v) = true ∧
      s.model t' = some (v.literals (reachOf clauses))

theorem sound_search : search.Sound fun t => t.1.Holds where
  empty := Search.holds_empty
  add c h := h.add c
  solve {t clauses} h := by
    refine ⟨t.1.solve.1.isSome, (t.1.solve.2, t.1.solve.1), rfl, h.solve, ?_⟩
    rw [← Option.ne_none_iff_isSome, ne_eq, Search.solve_eq_none_iff h]
    simp only [Bool.not_eq_false, not_forall]
  model {t t' clauses} h hsolve := by
    obtain ⟨hfound, rfl⟩ := Prod.mk.inj hsolve
    obtain ⟨model, hmodel⟩ := Option.isSome_iff_exists.mp (Except.ok.inj hfound)
    obtain ⟨v, hv, rfl⟩ := Search.exists_of_solve_eq_some h hmodel
    exact ⟨v, hv, hmodel⟩

variable {τ : Type} {s : Solver τ} {Holds : τ → List Clause → Prop} {t : τ} {clauses : List Clause}

theorem Sound.load (hs : s.Sound Holds) (f : Formula) : Holds (s.load f) f.clauses.reverse := by
  have h : ∀ (clauses before : List Clause) (t : τ), Holds t before →
      Holds (clauses.foldl (fun t c => s.add c t) t) (clauses.reverse ++ before) := by
    intro clauses
    induction clauses with
    | nil => exact fun before t ht => ht
    | cons c rest ih =>
      intro before t ht
      rw [List.foldl_cons, List.reverse_cons, List.append_assoc]
      exact ih (c :: before) (s.add c t) (hs.add c ht)
  have hload := h f.clauses [] s.empty hs.empty
  rwa [List.append_nil] at hload

/-- A formula is said to be satisfiable exactly when it is. -/
theorem Sound.exists_solve_load (hs : s.Sound Holds) (f : Formula) :
    ∃ answer, (s.solve (s.load f)).1 = .ok answer ∧ (answer = true ↔ f.Satisfiable) := by
  obtain ⟨answer, t', hsolve, -, hanswer⟩ := hs.solve (hs.load f)
  simp only [List.all_reverse] at hanswer
  exact ⟨answer, by rw [hsolve], hanswer⟩

/-! ## Asking until no model is left -/

/-- A solver is asked again and again, each model being excluded before the next question, until it
finds none: from the state `t` it is asked `asks` times, finds `models` and is left in the state
`u`. There is no bound on the number of questions. -/
inductive Exhausts (s : Solver τ) : τ → List (List Literal) → Nat → τ → Prop where
  | refuted {t u : τ} (h : s.solve t = (.ok false, u)) : Exhausts s t [] 1 u
  | found {t t' u : τ} {model : List Literal} {models : List (List Literal)} {asks : Nat}
    (h : s.solve t = (.ok true, t')) (hmodel : s.model t' = some model)
    (hrest : Exhausts s (s.add (blocking model) t') models asks u) :
    Exhausts s t (model :: models) (asks + 1) u

/-- A bound that is not reached does not matter. -/
theorem Exhausts.enumerateFrom_eq {models : List (List Literal)} {asks : Nat} {u : τ}
    (h : s.Exhausts t models asks u) {bound : Nat} (hbound : asks ≤ bound)
    (found : Array (List Literal)) :
    s.enumerateFrom bound t found = (.ok (found ++ models.toArray), u) := by
  induction h generalizing bound found with
  | refuted h =>
    obtain ⟨bound, rfl⟩ := Nat.exists_eq_succ_of_ne_zero (by omega : bound ≠ 0)
    rw [enumerateFrom, h]
    simp
  | @found t t' u model models asks h hmodel _ ih =>
    obtain ⟨bound, rfl⟩ := Nat.exists_eq_succ_of_ne_zero (by omega : bound ≠ 0)
    simp only [enumerateFrom, h, hmodel]
    show s.enumerateFrom bound (s.add (blocking model) t') (found.push model) = _
    rw [ih (by omega)]
    simp

/-- Each question takes one valuation out of those that are left. So the questions come to an end,
with one question more than there are valuations, and every model is found once. -/
theorem Sound.exists_exhausts (hs : s.Sound Holds) {n : ℕ} (count : ℕ) :
    ∀ (t : τ) (clauses : List Clause), Holds t clauses → reachOf clauses = n →
      (satisfying clauses n).card = count →
      ∃ models u, s.Exhausts t models (count + 1) u ∧ models.length = count ∧ models.Nodup ∧
        ∀ model, model ∈ models ↔
          ∃ v : Valuation, clauses.all (Clause.eval v) = true ∧ model = v.literals n := by
  induction count using Nat.strong_induction_on with
  | _ count ih =>
    intro t clauses ht hreach hcard
    obtain ⟨answer, t', hsolve, ht', hanswer⟩ := hs.solve ht
    cases answer with
    | false =>
      -- no valuation is left
      have hrefuted : ∀ v : Valuation, ¬ clauses.all (Clause.eval v) = true := fun v hv =>
        Bool.false_ne_true (hanswer.mpr ⟨v, hv⟩)
      obtain rfl : count = 0 := hcard.symm.trans (card_satisfying_eq_zero hrefuted)
      refine ⟨[], t', .refuted hsolve, rfl, List.nodup_nil, fun model => ?_⟩
      exact iff_of_false List.not_mem_nil fun ⟨v, hv, _⟩ => hrefuted v hv
    | true =>
      obtain ⟨v, hv, hmodel⟩ := hs.model ht hsolve
      rw [hreach] at hmodel
      -- all the valuations but the one that was found are left
      obtain ⟨left, hleft⟩ : ∃ left,
          (satisfying (blocking (v.literals n) :: clauses) n).card = left := ⟨_, rfl⟩
      obtain rfl : count = left + 1 := by
        rw [← hcard, card_satisfying_blocking hreach hv, hleft]
      obtain ⟨models, u, hrun, hlength, hnodup, hiff⟩ := ih left (Nat.lt_succ_self left) _ _
        (hs.add _ ht') (reachOf_blocking v hreach) hleft
      have hnot : v.literals n ∉ models := fun hin => not_exists_excluded ((hiff _).mp hin)
      refine ⟨v.literals n :: models, u, .found hsolve hmodel hrun, congrArg Nat.succ hlength,
        List.nodup_cons.mpr ⟨hnot, hnodup⟩, fun model => ?_⟩
      rw [List.mem_cons, hiff, exists_model_iff hv]

theorem reachOf_reverse (clauses : List Clause) : reachOf clauses.reverse = reachOf clauses := by
  refine eq_of_forall_ge_iff fun n => ?_
  rw [reachOf_le_iff, reachOf_le_iff]
  simp only [List.mem_reverse]

theorem satisfying_reverse (clauses : List Clause) (n : ℕ) :
    satisfying clauses.reverse n = satisfying clauses n := by
  ext values
  rw [mem_satisfying, mem_satisfying, List.all_reverse]

/-- The models of a formula are found one by one, each of them once, and the last question finds
none. -/
theorem Sound.exists_models (hs : s.Sound Holds) (f : Formula) :
    ∃ models u, s.Exhausts (s.load f) models (models.length + 1) u ∧
      models.length = (satisfying f.clauses f.reach).card ∧ models.Nodup ∧
      (∀ model, model ∈ models ↔ f.IsModel model) ∧ s.enumerate f = (.ok models.toArray, u) := by
  have hreach : reachOf f.clauses.reverse = f.reach := reachOf_reverse f.clauses
  obtain ⟨models, u, hrun, hlength, hnodup, hiff⟩ :=
    hs.exists_exhausts _ (s.load f) f.clauses.reverse (hs.load f) hreach rfl
  rw [satisfying_reverse] at hrun hlength
  simp only [List.all_reverse] at hiff
  refine ⟨models, u, hlength ▸ hrun, hlength, hnodup, hiff, ?_⟩
  have hle : (satisfying f.clauses f.reach).card ≤ Nat.pow 2 f.reach := card_satisfying_le
  rw [enumerate, hrun.enumerateFrom_eq (by omega)]
  simp

end Solver

/-! ## Oracles -/

namespace Oracle

variable {τ : Type} {s : Solver τ} {Holds : τ → List Clause → Prop}

/-- A question about satisfiability returns the answer of the solver, and it counts once. -/
theorem returns_satisfiable_ofSolver_iff {f : Formula} {before after : Session Nat}
    {answer : Bool} :
    ((ofSolver s).satisfiable f).Returns before answer after ↔
      (s.solve (s.load f)).1 = .ok answer ∧
        { before with oracle := before.oracle + 1 } = after := by
  simp only [ofSolver, Evaluation.returns_bind, Evaluation.returns_update,
    Evaluation.returns_ofExcept, mapError_eq_ok_iff, exists_const, exists_eq_left']

/-- A question for models returns what is enumerated. -/
theorem yields_models_ofSolver {f : Formula} {models : List (List Literal)}
    (h : ((ofSolver s).models f).Yields models) : (s.enumerate f).1 = .ok models.toArray := by
  obtain ⟨before, after, h⟩ := h
  simp only [ofSolver, Evaluation.returns_bind, Evaluation.returns_update,
    Evaluation.returns_ofExcept, Evaluation.returns_pure] at h
  obtain ⟨_, _, _, found, _, ⟨hfound, _⟩, _, _, _, rfl, _⟩ := h
  exact hfound

/-- If the models can be enumerated, the question for them returns them, and it counts once. -/
theorem exists_returns_models_ofSolver {f : Formula} {models : List (List Literal)}
    (h : (s.enumerate f).1 = .ok models.toArray) (before : Session Nat) :
    ∃ after, ((ofSolver s).models f).Returns before models after ∧
      after.oracle = before.oracle + 1 := by
  simp only [ofSolver, h, Evaluation.returns_bind, Evaluation.returns_update,
    Evaluation.returns_ofExcept, Evaluation.returns_note, Evaluation.returns_pure, exists_const,
    exists_eq_left']
  exact ⟨_, ⟨_, _, ⟨rfl, rfl⟩, rfl, rfl⟩, rfl⟩

theorem reliable_ofSolver (hs : s.Sound Holds) : (ofSolver s).Reliable where
  decides f answer hanswer := by
    obtain ⟨before, after, h⟩ := hanswer
    obtain ⟨other, hother, hiff⟩ := hs.exists_solve_load f
    rw [returns_satisfiable_ofSolver_iff, hother] at h
    rwa [← Except.ok.inj h.1]
  listsModels f models hmodels := by
    obtain ⟨found, u, -, -, -, hiff, heq⟩ := hs.exists_models f
    have hfound := yields_models_ofSolver hmodels
    rw [heq] at hfound
    obtain rfl : found = models := congrArg Array.toList (Except.ok.inj hfound)
    exact hiff
  total_satisfiable f before := by
    obtain ⟨answer, hanswer, -⟩ := hs.exists_solve_load f
    exact ⟨answer, _, returns_satisfiable_ofSolver_iff.mpr ⟨hanswer, rfl⟩⟩
  answersModels f before := by
    obtain ⟨found, u, -, -, -, -, heq⟩ := hs.exists_models f
    obtain ⟨after, hreturns, -⟩ := exists_returns_models_ofSolver (congrArg Prod.fst heq) before
    exact ⟨found, after, hreturns⟩

theorem reliable_exact : exact.Reliable := reliable_ofSolver Solver.sound_search

end Oracle

end PreferenceLogic
