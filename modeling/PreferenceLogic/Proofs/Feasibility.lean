import PreferenceLogic.Feasibility
import PreferenceLogic.Proofs.Evaluation
import PreferenceLogic.Proofs.Formula.Meaning

/-!
# The feasible objects

The clauses that always hold make every model of the constraints decide all attributes. So the
models are the literals of those objects that satisfy the constraints, whatever the order in which
they are listed.

Results:
* `Formula.reach_spanning`, `Formula.atoms_spanning`, `Formula.eval_spanning`: the added clauses
  reach all attributes, and they change no truth value.
* `Oracle.sublist_of_feasible`: the feasible objects are objects, in their order. This holds for any
  answer about models.
* `Oracle.feasible_eq`, `Oracle.id_mem_feasible_iff`: with the models of the constraints, the
  feasible objects are those that satisfy them.
* `Oracle.Reliable.gives_feasible`: with a reliable oracle they are found.
-/

namespace PreferenceLogic

theorem Valuation.literals_inj {v w : Valuation} {atoms : Nat} :
    v.literals atoms = w.literals atoms ↔ ∀ atom < atoms, v atom = w atom := by
  simp [literals]

namespace Formula

variable {f : Formula} {atoms : Nat}

theorem reachOf_excludedMiddle (atoms : Nat) :
    reachOf ((List.range atoms).map excludedMiddle) = atoms := by
  refine eq_of_forall_ge_iff fun n => ?_
  rw [reachOf_le_iff, ← forall_lt_iff_le]
  simp [excludedMiddle]

theorem reach_spanning (h : f.reach ≤ atoms) : (f.spanning atoms).reach = atoms := by
  show reachOf (f.clauses ++ (List.range atoms).map excludedMiddle) = atoms
  rw [reachOf_append, reachOf_excludedMiddle]
  exact Nat.max_eq_right h

theorem atoms_spanning (h : f.reach ≤ atoms) : (f.spanning atoms).atoms = atoms := by
  show max atoms (f.spanning atoms).reach = atoms
  rw [reach_spanning h, Nat.max_self]

theorem eval_spanning (w : Valuation) : (f.spanning atoms).eval w = f.eval w := by
  have h : ((List.range atoms).map excludedMiddle).all (Clause.eval w) = true := by
    rw [List.all_map, List.all_eq_true]
    intro atom _
    cases hw : w atom <;> simp [excludedMiddle, Clause.eval, Literal.eval, hw]
  rw [spanning, eval_ofClauses, List.all_append, h, Bool.and_true, eval]

/-- The literals of an object are a model of the constraints with the added clauses exactly when the
object satisfies the constraints. -/
theorem isModel_spanning_iff {v : Vocabulary} {object : Object} (hobject : object ∈ v.objects)
    (h : f.reach ≤ v.size) :
    (f.spanning v.size).IsModel object.literals ↔ f.eval object.valuation = true := by
  unfold IsModel
  rw [reach_spanning h, Vocabulary.literals_of_mem hobject]
  simp only [eval_spanning, Valuation.literals_inj]
  constructor
  · rintro ⟨w, hf, hw⟩
    rw [← hf]
    apply eval_congr
    intro atom hatom
    exact hw atom (by omega)
  · intro hf
    exact ⟨object.valuation, hf, fun _ _ => rfl⟩

end Formula

namespace Oracle

variable {σ : Type} {o : Oracle σ} {f : Formula} {objects : List Object} {found : List Nat}

theorem exists_models_of_feasible (h : (o.feasible f objects).Yields found) :
    ∃ models, (o.models f).Yields models ∧ found = fitting (.ofList models) objects := by
  obtain ⟨s, t, h⟩ := h
  simp only [feasible, Evaluation.returns_bind, Evaluation.returns_note,
    Evaluation.returns_pure] at h
  obtain ⟨models, _, hmodels, _, _, _, rfl, _⟩ := h
  exact ⟨models, hmodels.yields, rfl⟩

theorem sublist_of_feasible (h : (o.feasible f objects).Yields found) :
    found.Sublist (objects.map Object.id) := by
  obtain ⟨models, -, rfl⟩ := exists_models_of_feasible h
  exact List.filter_sublist.map Object.id

/-- With the models of the constraints, the feasible objects are those that satisfy them, in the
order of the objects. -/
theorem feasible_eq (ho : o.ListsModels) {v : Vocabulary} (hreach : f.reach ≤ v.size)
    (h : (o.feasible (f.spanning v.size) v.objects).Yields found) :
    found = (v.objects.filter fun object => f.eval object.valuation).map Object.id := by
  obtain ⟨models, hmodels, rfl⟩ := exists_models_of_feasible h
  refine congrArg (List.map Object.id) (List.filter_congr fun object hobject => ?_)
  rw [Bool.eq_iff_iff, Std.TreeSet.contains_ofList, List.contains_iff_mem, ho _ _ hmodels,
    Formula.isModel_spanning_iff hobject hreach]

theorem id_mem_feasible_iff (ho : o.ListsModels) {v : Vocabulary} (hreach : f.reach ≤ v.size)
    (h : (o.feasible (f.spanning v.size) v.objects).Yields found) {object : Object}
    (hobject : object ∈ v.objects) : object.id ∈ found ↔ f.eval object.valuation = true := by
  rw [feasible_eq ho hreach h, Vocabulary.id_mem_map_iff List.filter_sublist.subset hobject,
    List.mem_filter]
  exact and_iff_right hobject

/-- Finding the feasible objects fails only where the question for models does. -/
theorem exists_returns_feasible (ho : o.AnswersModels) (f : Formula) (objects : List Object)
    (s : Session σ) : ∃ found t, (o.feasible f objects).Returns s found t := by
  obtain ⟨models, t, hmodels⟩ := ho f s
  simp only [feasible, Evaluation.returns_bind, Evaluation.returns_note,
    Evaluation.returns_pure]
  exact ⟨_, _, models, t, hmodels, (), _, rfl, rfl, rfl⟩

/-- A reliable oracle finds the same feasible objects whenever it is asked. -/
theorem Reliable.gives_feasible (ho : o.Reliable) {v : Vocabulary} (hreach : f.reach ≤ v.size) :
    (o.feasible (f.spanning v.size) v.objects).Gives
      (.ok ((v.objects.filter fun object => f.eval object.valuation).map Object.id)) := by
  have htotal : (o.feasible (f.spanning v.size) v.objects).Total :=
    exists_returns_feasible ho.answersModels _ _
  exact htotal.gives fun found hfound => feasible_eq ho.listsModels hreach hfound

end Oracle

end PreferenceLogic
