import PreferenceLogic.Proofs.Object.Pinning
import PreferenceLogic.Proofs.Oracle.Enumeration

/-!
# Testing the objects one by one

The feasible objects are found by a single question for the models of the constraints. They could
also be found by asking about every object on its own, whether the constraints are satisfiable
together with its choices. A reliable oracle gives the same objects both ways.

Definitions:
* `Oracle.tested`: the objects that pass their own question.

Results:
* `Oracle.Reliable.gives_satisfiable_pinned`: asking about an object is evaluating the formula.
* `Oracle.feasible_eq_tested`: both ways give the same objects.
-/

namespace PreferenceLogic.Oracle

variable {σ : Type} {o : Oracle σ} {v : Vocabulary} {object : Object} {f : Formula}

/-- The objects of which the oracle says that they satisfy a formula, each of them being asked about
on its own. -/
def tested (o : Oracle σ) (f : Formula) (objects : List Object) :
    Evaluation σ Oracle.Error (List Object) :=
  objects.filterM fun object => o.satisfiable (object.pinned f)

theorem Reliable.gives_satisfiable_pinned (ho : o.Reliable) (hobject : object ∈ v.objects)
    (hreach : f.reach ≤ v.size) :
    (o.satisfiable (object.pinned f)).Gives (.ok (f.eval object.valuation)) := by
  refine (ho.total_satisfiable _).gives fun answer hanswer => ?_
  rw [Bool.eq_iff_iff, ho.decides _ _ hanswer,
    Vocabulary.satisfiable_pinned_iff_eval hobject hreach]

/-- **One question or many.** With a reliable oracle, whatever order it lists models in and however
often, the single question for the models of the constraints finds just the objects that pass the
question about their own choices, in the order of their numbers. No attribute need occur in the
constraints, and there may be no attributes at all. -/
theorem feasible_eq_tested (ho : o.Reliable) (v : Vocabulary) (hreach : f.reach ≤ v.size) :
    ∃ found : List Object,
      (o.feasible (f.spanning v.size) v.objects).Gives (.ok (found.map Object.id)) ∧
      (o.tested f v.objects).Gives (.ok found) ∧
      (∀ object ∈ v.objects,
        (o.satisfiable (object.pinned f)).Gives (.ok (decide (object ∈ found)))) ∧
      found.Sublist v.objects ∧ (found.map Object.id).Pairwise (· < ·) := by
  have hpinned : ∀ object ∈ v.objects,
      (o.satisfiable (object.pinned f)).Gives (.ok (f.eval object.valuation)) :=
    fun object hobject => ho.gives_satisfiable_pinned hobject hreach
  have hsublist : (v.objects.filter fun object => f.eval object.valuation).Sublist v.objects :=
    List.filter_sublist
  refine ⟨_, ho.gives_feasible hreach, Evaluation.Gives.filterM_ok hpinned, ?_, hsublist,
    Vocabulary.pairwise_ids_of_sublist hsublist⟩
  intro object hobject
  have hmem : decide (object ∈ v.objects.filter fun object => f.eval object.valuation) =
      f.eval object.valuation := by
    simp [hobject]
  rw [hmem]
  exact hpinned object hobject

/-- Gifts that are big, whatever their colour is: the last attribute does not occur. -/
theorem feasible_eq_tested_gifts :
    ∃ found : List Object, found.map Object.id = [2, 3] ∧
      (exact.feasible (Formula.spanning (.ofClauses 2 [[⟨0, true⟩]]) 2)
        Formula.gifts.objects).Gives (.ok [2, 3]) ∧
      (exact.tested (.ofClauses 2 [[⟨0, true⟩]]) Formula.gifts.objects).Gives (.ok found) := by
  obtain ⟨found, hfeasible, htested, -⟩ := feasible_eq_tested reliable_exact Formula.gifts
    (f := .ofClauses 2 [[⟨0, true⟩]]) (by decide)
  have hstart := htested { oracle := 0 }
  have hids : ((exact.tested (.ofClauses 2 [[⟨0, true⟩]]) Formula.gifts.objects).outcome
      { oracle := 0 }).1.map (List.map Object.id) = .ok [2, 3] := by decide +kernel
  rw [hstart] at hids
  have hfound : found.map Object.id = [2, 3] := Except.ok.inj hids
  rw [hfound] at hfeasible
  exact ⟨found, hfound, hfeasible, htested⟩

end PreferenceLogic.Oracle
