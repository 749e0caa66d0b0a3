import PreferenceLogic.Proofs.Oracle.Enumeration

/-!
# How often a solver is asked for models

The models of a formula are found by asking for one model after the other, and nothing is said
beforehand about how many questions that takes. With a sound solver the questions come to an end all
the same, whichever models it chooses: there is one question for each model, and one more that finds
none. For the oracle all of them together count as one question.

Definitions:
* `Solver.counted`: a solver that counts how often it is asked.
* `Solver.Enumerates`: what the enumeration of the models of a formula comes to.
* `Solver.Fails`: a solver fails while it is asked for models, or has no model to show.

Results:
* `Solver.Exhausts.counted`: counting changes nothing but the count.
* `Formula.eq_of_isModel_iff`: the models of a formula in which no atom occurs.
* `Solver.Sound.exists_enumerates`: a sound solver is asked once for each model and once more.
* `Solver.Exhausts.not_fails`: a solver that is asked until no model is left has not failed.
* `Oracle.fails_of_models_ofSolver`: whatever the solver, the oracle fails only if the solver does.
* `Oracle.enumerates_of_sound`: the oracle of a sound solver enumerates the models of every formula.
-/

namespace PreferenceLogic

/-! ## Formulas without atoms -/

namespace Formula

variable {f : Formula}

/-- A formula without atoms is true unless it has an empty clause. -/
theorem eval_of_reach_eq_zero (h : f.reach = 0) (v : Valuation) :
    f.eval v = true ↔ [] ∉ f.clauses := by
  have hempty : ∀ c ∈ f.clauses, c = [] := by
    intro c hc
    rw [List.eq_nil_iff_forall_not_mem]
    intro l hl
    exact Nat.not_lt_zero _ (h ▸ reachOf_le_iff.mp (Nat.le_refl f.reach) c hc l hl)
  rw [eval, List.all_eq_true]
  constructor
  · intro hall hnil
    exact Bool.false_ne_true (hall [] hnil)
  · intro hnil c hc
    exact absurd (hempty c hc ▸ hc) hnil

/-- A formula without atoms has the empty model, unless it has an empty clause. -/
theorem eq_of_isModel_iff (h : f.reach = 0) {models : List (List Literal)} (hnodup : models.Nodup)
    (hiff : ∀ model, model ∈ models ↔ f.IsModel model) :
    models = if [] ∈ f.clauses then [] else [[]] := by
  have hmodel : ∀ model, f.IsModel model ↔ [] ∉ f.clauses ∧ model = [] := by
    intro model
    simp only [IsModel, eval_of_reach_eq_zero h, h]
    exact ⟨fun ⟨_, hnil, heq⟩ => ⟨hnil, heq⟩, fun ⟨hnil, heq⟩ => ⟨fun _ => false, hnil, heq⟩⟩
  split
  · rename_i hnil
    rw [List.eq_nil_iff_forall_not_mem]
    intro model hmem
    exact ((hmodel model).mp ((hiff model).mp hmem)).1 hnil
  · rename_i hnil
    rw [← List.perm_singleton, List.perm_ext_iff_of_nodup hnodup (List.nodup_singleton [])]
    intro model
    rw [hiff, hmodel, List.mem_singleton, and_iff_right hnil]

end Formula

/-! ## Counting questions -/

namespace Solver

variable {τ : Type} {s : Solver τ} {Holds : τ → List Clause → Prop} {t u : τ}
  {models : List (List Literal)} {asks : Nat} {f : Formula}

/-- The same solver, counting how often it is asked. -/
def counted (s : Solver τ) : Solver (τ × Nat) where
  empty := (s.empty, 0)
  add c t := (s.add c t.1, t.2)
  solve t := ((s.solve t.1).1, (s.solve t.1).2, t.2 + 1)
  model t := s.model t.1

theorem load_counted (s : Solver τ) (f : Formula) : s.counted.load f = (s.load f, 0) := by
  have hfold : ∀ (clauses : List Clause) (t : τ),
      clauses.foldl (fun t c => s.counted.add c t) (t, 0) =
        (clauses.foldl (fun t c => s.add c t) t, 0) := by
    intro clauses
    induction clauses with
    | nil => exact fun t => rfl
    | cons c rest ih => exact fun t => ih (s.add c t)
  exact hfold f.clauses s.empty

/-- The count does not change what the solver does. -/
theorem Exhausts.counted (h : s.Exhausts t models asks u) (count : Nat) :
    s.counted.Exhausts (t, count) models asks (u, count + asks) := by
  induction h generalizing count with
  | refuted h => exact .refuted (by simp [Solver.counted, h])
  | @found t t' u model models asks h hmodel _ ih =>
    have hsolve : s.counted.solve (t, count) = (.ok true, t', count + 1) := by
      simp [Solver.counted, h]
    have hrest := ih (count + 1)
    rw [Nat.add_assoc, Nat.add_comm 1] at hrest
    exact .found hsolve hmodel hrest

/-- What the enumeration of the models of a formula comes to. -/
structure Enumerates (s : Solver τ) (f : Formula) (models : List (List Literal)) : Prop where
  /-- The solver is asked until it finds no model. There is one question for each model, and one
  more. -/
  exhausts : ∃ u, s.Exhausts (s.load f) models (models.length + 1) u
  /-- The questions of the enumeration are as many, so its bound on them is never met. -/
  counted : ∃ u, s.counted.enumerate f = (.ok models.toArray, u, models.length + 1)
  /-- No model is found twice. -/
  nodup : models.Nodup
  /-- The models of the formula are found, and nothing else. -/
  mem_iff : ∀ model, model ∈ models ↔ f.IsModel model
  /-- There are as many of them as valuations of the atoms within reach that satisfy the
  formula. -/
  length_eq : models.length = (satisfying f.clauses f.reach).card
  /-- Without atoms there is only the empty model, and none if there is an empty clause. -/
  of_reach_eq_zero : f.reach = 0 → models = if [] ∈ f.clauses then [] else [[]]

theorem Sound.exists_enumerates (hs : s.Sound Holds) (f : Formula) :
    ∃ models, (s.enumerate f).1 = .ok models.toArray ∧ s.Enumerates f models := by
  obtain ⟨models, u, hrun, hlength, hnodup, hiff, heq⟩ := hs.exists_models f
  refine ⟨models, congrArg Prod.fst heq, ⟨u, hrun⟩, ⟨u, ?_⟩, hnodup, hiff, hlength,
    fun hreach => Formula.eq_of_isModel_iff hreach hnodup hiff⟩
  have hcounted := hrun.counted 0
  have hle : (satisfying f.clauses f.reach).card ≤ Nat.pow 2 f.reach := card_satisfying_le
  rw [Nat.zero_add, ← load_counted] at hcounted
  rw [enumerate, hcounted.enumerateFrom_eq (by omega)]
  simp

/-! ## Failures -/

/-- A solver is asked again and again, each model being excluded before the next question, until it
fails or has no model to show. -/
inductive Fails (s : Solver τ) : τ → Oracle.Error → Prop where
  | unanswered {t u : τ} {cause : Solver.Error} (h : s.solve t = (.error cause, u)) :
    Fails s t (.solver cause)
  | missing {t u : τ} (h : s.solve t = (.ok true, u)) (hmodel : s.model u = none) :
    Fails s t .missingModel
  | found {t t' : τ} {model : List Literal} {err : Oracle.Error} (h : s.solve t = (.ok true, t'))
    (hmodel : s.model t' = some model) (hrest : Fails s (s.add (blocking model) t') err) :
    Fails s t err

/-- An error of an enumeration is that of the first question without an answer, or of the first
model that is missing. -/
theorem fails_of_enumerateFrom {bound : Nat} {found : Array (List Literal)} {err : Oracle.Error}
    (h : (s.enumerateFrom bound t found).1 = .error err) : s.Fails t err := by
  induction bound generalizing t found with
  | zero => cases h
  | succ bound ih =>
    rw [enumerateFrom] at h
    rcases hsolve : s.solve t with ⟨cause | answer, t'⟩
    · rw [hsolve] at h
      cases h
      exact .unanswered hsolve
    · cases answer with
      | false =>
        rw [hsolve] at h
        cases h
      | true =>
        simp only [hsolve] at h
        cases hmodel : s.model t' with
        | none =>
          rw [hmodel] at h
          cases h
          exact .missing hsolve hmodel
        | some model =>
          rw [hmodel] at h
          exact .found hsolve hmodel (ih h)

/-- A solver that is asked until no model is left does not fail before that. -/
theorem Exhausts.not_fails (h : s.Exhausts t models asks u) {err : Oracle.Error} :
    ¬ s.Fails t err := by
  induction h with
  | refuted h =>
    intro hfails
    cases hfails with
    | unanswered h' => simp [h] at h'
    | missing h' _ => simp [h] at h'
    | found h' _ _ => simp [h] at h'
  | found h hmodel _ ih =>
    intro hfails
    cases hfails with
    | unanswered h' => simp [h] at h'
    | missing h' hmodel' =>
      rw [h] at h'
      cases h'
      simp [hmodel] at hmodel'
    | found h' hmodel' hrest =>
      rw [h] at h'
      cases h'
      rw [hmodel] at hmodel'
      cases hmodel'
      exact ih hrest

end Solver

/-! ## The oracle -/

namespace Oracle

/-- Whatever the solver is, a question for models that has no answer counts like any other, and the
error is that of the solver or of a model that is missing. -/
theorem fails_of_models_ofSolver {τ : Type} {s : Solver τ} {f : Formula} {before : Session Nat}
    {err : Oracle.Error} (h : (((ofSolver s).models f).outcome before).1 = .error err) :
    s.Fails (s.load f) err ∧
      (((ofSolver s).models f).outcome before).2.oracle = before.oracle + 1 := by
  cases hmodels : (s.enumerate f).1 with
  | error cause =>
    have houtcome : ((ofSolver s).models f).outcome before =
        (.error cause, { before with oracle := before.oracle + 1 }) := by
      simp only [ofSolver, hmodels]
      rfl
    rw [houtcome] at h ⊢
    cases h
    exact ⟨Solver.fails_of_enumerateFrom hmodels, rfl⟩
  | ok models =>
    obtain ⟨after, hreturns, -⟩ :=
      @exists_returns_models_ofSolver τ s f models.toList hmodels before
    rw [hreturns] at h
    cases h

/-- **Enumeration.** Whichever models a sound solver chooses, its oracle finds the models of every
formula, each of them once, and it is asked no more than once for that. The solver itself is asked
once for each model and once more. -/
theorem enumerates_of_sound {τ : Type} {s : Solver τ} {Holds : τ → List Clause → Prop}
    (hs : s.Sound Holds) (f : Formula) (before : Session Nat) :
    ∃ models after, ((ofSolver s).models f).Returns before models after ∧
      after.oracle = before.oracle + 1 ∧ s.Enumerates f models := by
  obtain ⟨models, hmodels, henumerates⟩ := hs.exists_enumerates f
  obtain ⟨after, hreturns, hafter⟩ := exists_returns_models_ofSolver hmodels before
  exact ⟨models, after, hreturns, hafter, henumerates⟩

/-- The third atom does not occur, so there are three models, and the search is asked four times. -/
theorem enumerates_of_sound_search :
    ∃ models after,
      (exact.models (.ofClauses 3 [[⟨0, true⟩, ⟨1, true⟩]])).Returns { oracle := 6 } models after ∧
      after.oracle = 7 ∧ models.length = 3 ∧
      Solver.search.Enumerates (.ofClauses 3 [[⟨0, true⟩, ⟨1, true⟩]]) models := by
  obtain ⟨models, after, hreturns, hafter, henumerates⟩ :=
    enumerates_of_sound Solver.sound_search (.ofClauses 3 [[⟨0, true⟩, ⟨1, true⟩]]) { oracle := 6 }
  refine ⟨models, after, hreturns, hafter, ?_, henumerates⟩
  rw [henumerates.length_eq]
  decide

end Oracle

end PreferenceLogic
