import PreferenceLogic.Problem.Basic
import PreferenceLogic.Proofs.Comparison.Optimal
import PreferenceLogic.Proofs.Oracle.Enumeration
import PreferenceLogic.Proofs.Problem.Evaluation

/-!
# Optimal objects and comparisons

Two objects are compared by looking up their rows, and the optimal objects are found from the whole
table. Both ways say the same: an object is optimal if no feasible object is preferred to it. This
holds for every problem that is evaluated, whatever the oracle has answered.

Definitions:
* `Problem.Ranked`: the rows of a table stand beside the feasible objects, and the comparisons and
  the optimal objects of a logic are those of the rows.

Results:
* `Problem.Evaluated.ranked_penalty`, `Problem.Evaluated.ranked_qualitative`: both tables of an
  evaluated problem are such tables.
* `Problem.optimal_iff_undominated`: the optimal objects are those to which none is preferred.
-/

namespace PreferenceLogic.Problem

variable {σ ρ : Type} {o : Oracle σ} {config : Config} {v : Vocabulary} {constraints : Formula}
  {penaltyRules : List PenaltyRule} {choiceRules : List ChoiceRule} {p : Problem}

/-! ## Comparing rows -/

theorem scoreOf_eq_ok_iff {α : Type} {score? : Nat → Option α} {id : Nat} {score : α} :
    scoreOf score? id = .ok score ↔ score? id = some score := by
  unfold scoreOf
  cases score? id <;> simp

/-- Two objects are compared by the scores in their rows. -/
theorem compareScores_eq_ok_iff {α : Type} {number : ρ → Nat} {score : ρ → α} {rows : List ρ}
    (hsorted : (rows.map number).Pairwise (· < ·)) {outcome : α → α → Comparison} {a b : Nat}
    {c : Comparison} :
    (do let x ← scoreOf (fun id => (lookup? number rows id).map score) a
        let y ← scoreOf (fun id => (lookup? number rows id).map score) b
        return outcome x y : Except Error Comparison) = .ok c ↔
      ∃ x ∈ rows, ∃ y ∈ rows, number x = a ∧ number y = b ∧ outcome (score x) (score y) = c := by
  have hscore : ∀ id value, scoreOf (fun id => (lookup? number rows id).map score) id = .ok value ↔
      ∃ row ∈ rows, number row = id ∧ score row = value := by
    intro id value
    rw [scoreOf_eq_ok_iff, Option.map_eq_some_iff]
    simp only [lookup?_eq_some_iff hsorted, and_assoc]
  simp only [bind_eq_ok_iff, hscore]
  constructor
  · intro h
    obtain ⟨_, ⟨x, hx, hxa, rfl⟩, _, ⟨y, hy, hyb, rfl⟩, hc⟩ := h
    exact ⟨x, hx, y, hy, hxa, hyb, Except.ok.inj hc⟩
  · intro h
    obtain ⟨x, hx, y, hy, hxa, hyb, hc⟩ := h
    exact ⟨_, ⟨x, hx, hxa, rfl⟩, _, ⟨y, hy, hyb, rfl⟩, congrArg Except.ok hc⟩

/-! ## Ranked rows -/

/-- Some rows rank the feasible objects in a logic: there is one row for each of them, two objects
compare like their rows, and the optimal objects are those of the undominated rows. -/
structure Ranked (p : Problem) (logic : Logic) (number : ρ → Nat) (prefer : ρ → ρ → Comparison)
    (rows : List ρ) : Prop where
  ids_eq : rows.map number = p.feasible
  pairwise : p.feasible.Pairwise (· < ·)
  coherent : Comparison.Coherent prefer rows
  compare_eq_ok_iff : ∀ a b c, p.compare logic a b = .ok c ↔
    ∃ x ∈ rows, ∃ y ∈ rows, number x = a ∧ number y = b ∧ prefer x y = c
  optimal_eq : p.optimal logic = (undominated prefer rows).map number

namespace Evaluated

variable (h : p.Evaluated o config v constraints penaltyRules choiceRules)

include h

theorem ranked_penalty : p.Ranked .penalty PenaltyRow.object
    (fun x y => Comparison.ofTotals x.total y.total) p.penalties.rows where
  ids_eq := h.map_object_penalties
  pairwise := h.pairwise_feasible
  coherent := Comparison.coherent_penalties _
  compare_eq_ok_iff _ _ _ := compareScores_eq_ok_iff h.pairwise_penalties
  optimal_eq := p.penalties.optimal_eq

theorem ranked_qualitative : p.Ranked .qualitative DegreeRow.object
    (fun x y => Comparison.ofDegrees x.degrees y.degrees) p.degrees.rows where
  ids_eq := h.map_object_degrees
  pairwise := h.pairwise_feasible
  coherent := (DegreeTable.rectangular_of_score h.degrees).coherent
  compare_eq_ok_iff _ _ _ := compareScores_eq_ok_iff h.pairwise_degrees
  optimal_eq := p.degrees.optimal_eq

theorem exists_ranked (logic : Logic) :
    ∃ (ρ : Type) (number : ρ → Nat) (prefer : ρ → ρ → Comparison) (rows : List ρ),
      p.Ranked logic number prefer rows := by
  cases logic with
  | penalty => exact ⟨_, _, _, _, h.ranked_penalty⟩
  | qualitative => exact ⟨_, _, _, _, h.ranked_qualitative⟩

end Evaluated

namespace Ranked

variable {logic : Logic} {number : ρ → Nat} {prefer : ρ → ρ → Comparison} {rows : List ρ}
  (h : p.Ranked logic number prefer rows)

include h

/-- An object has one row only. -/
theorem row_unique {x y : ρ} (hx : x ∈ rows) (hy : y ∈ rows) (heq : number x = number y) :
    x = y := by
  have hnodup : (rows.map number).Nodup := by
    rw [h.ids_eq]
    exact h.pairwise.imp fun hlt => Nat.ne_of_lt hlt
  exact List.inj_on_of_nodup_map hnodup hx hy heq

theorem compare_eq {x y : ρ} (hx : x ∈ rows) (hy : y ∈ rows) :
    p.compare logic (number x) (number y) = .ok (prefer x y) :=
  (h.compare_eq_ok_iff _ _ _).mpr ⟨x, hx, y, hy, rfl, rfl, rfl⟩

theorem exists_undominated_of_mem {id : Nat} (hid : id ∈ p.optimal logic) :
    ∃ row ∈ undominated prefer rows, number row = id := by
  rw [h.optimal_eq] at hid
  exact List.mem_map.mp hid

theorem mem_optimal_iff {id : Nat} :
    id ∈ p.optimal logic ↔ id ∈ p.feasible ∧
      ¬ ∃ other ∈ p.feasible, p.compare logic other id = .ok .first := by
  constructor
  · intro hid
    obtain ⟨row, hrow, rfl⟩ := h.exists_undominated_of_mem hid
    obtain ⟨hmem, hnone⟩ := mem_undominated_iff.mp hrow
    refine ⟨h.ids_eq ▸ List.mem_map_of_mem hmem, fun hpreferred => ?_⟩
    obtain ⟨other, -, hfirst⟩ := hpreferred
    obtain ⟨x, hx, y, hy, -, hyid, hprefer⟩ := (h.compare_eq_ok_iff _ _ _).mp hfirst
    rw [h.row_unique hy hmem hyid] at hprefer
    exact hnone x hx hprefer
  · intro hfeasible
    obtain ⟨hid, hnone⟩ := hfeasible
    rw [← h.ids_eq] at hid
    obtain ⟨row, hrow, rfl⟩ := List.mem_map.mp hid
    rw [h.optimal_eq]
    refine List.mem_map_of_mem (mem_undominated_iff.mpr ⟨hrow, fun other hother hfirst => ?_⟩)
    have hcompare := h.compare_eq hother hrow
    rw [hfirst] at hcompare
    exact hnone ⟨number other, h.ids_eq ▸ List.mem_map_of_mem hother, hcompare⟩

theorem sublist_optimal : (p.optimal logic).Sublist p.feasible := by
  rw [h.optimal_eq, ← h.ids_eq]
  exact List.filter_sublist.map number

theorem optimal_eq_nil_iff : p.optimal logic = [] ↔ p.feasible = [] := by
  rw [h.optimal_eq, ← h.ids_eq, List.map_eq_nil_iff, List.map_eq_nil_iff]
  exact h.coherent.undominated_eq_nil_iff

theorem compare_of_mem_optimal {a b : Nat} (ha : a ∈ p.optimal logic) (hb : b ∈ p.optimal logic) :
    p.compare logic a b = .ok .equal ∨ p.compare logic a b = .ok .incomparable := by
  obtain ⟨x, hx, rfl⟩ := h.exists_undominated_of_mem ha
  obtain ⟨y, hy, rfl⟩ := h.exists_undominated_of_mem hb
  rw [h.compare_eq (mem_undominated_iff.mp hx).1 (mem_undominated_iff.mp hy).1]
  exact (h.coherent.prefer_of_undominated hx hy).imp (congrArg Except.ok) (congrArg Except.ok)

end Ranked

/-! ## Optimal objects -/

/-- **Optimal objects.** In every problem that is evaluated, whatever the oracle answers, an object
is optimal exactly when it is feasible and no feasible object is preferred to it. The optimal
objects are listed in increasing order, and there is one unless no object is feasible. Two of them
are equal in penalty logic, and equal or incomparable in qualitative choice logic. -/
theorem optimal_iff_undominated {s t : Session σ}
    (hreturns : (evaluate o config v constraints penaltyRules choiceRules).Returns s p t) :
    (∀ logic,
      (∀ id, id ∈ p.optimal logic ↔ id ∈ p.feasible ∧
        ¬ ∃ other ∈ p.feasible, p.compare logic other id = .ok .first) ∧
      (p.optimal logic).Sublist p.feasible ∧ (p.optimal logic).Pairwise (· < ·) ∧
      (p.optimal logic = [] ↔ p.feasible = [])) ∧
    (∀ a ∈ p.optimal .penalty, ∀ b ∈ p.optimal .penalty, p.compare .penalty a b = .ok .equal) ∧
    ∀ a ∈ p.optimal .qualitative, ∀ b ∈ p.optimal .qualitative,
      p.compare .qualitative a b = .ok .equal ∨ p.compare .qualitative a b = .ok .incomparable := by
  have h := evaluated_of_returns hreturns
  refine ⟨fun logic => ?_, ?_, ?_⟩
  · obtain ⟨ρ, number, prefer, rows, hranked⟩ := h.exists_ranked logic
    exact ⟨fun id => hranked.mem_optimal_iff, hranked.sublist_optimal,
      hranked.pairwise.sublist hranked.sublist_optimal, hranked.optimal_eq_nil_iff⟩
  · intro a ha b hb
    rcases h.ranked_penalty.compare_of_mem_optimal ha hb with hequal | hincomparable
    · exact hequal
    · -- totals are always comparable
      obtain ⟨x, -, y, -, -, -, hprefer⟩ :=
        (h.ranked_penalty.compare_eq_ok_iff _ _ _).mp hincomparable
      exact absurd hprefer (Comparison.ofTotals_ne_incomparable _ _)
  · intro a ha b hb
    exact h.ranked_qualitative.compare_of_mem_optimal ha hb

/-- Meat with red wine violates no penalty rule. By the degrees no dinner is preferred to it, and it
cannot be compared with fish with white wine. -/
theorem optimal_iff_undominated_dinner :
    ∃ p t, (load Oracle.exact {} (dinner "fish OR NOT white\n")).Returns { oracle := 0 } p t ∧
      p.optimal .penalty = [0] ∧ p.optimal .qualitative = [0, 3] ∧
      (¬ ∃ other ∈ p.feasible, p.compare .penalty other 0 = .ok .first) ∧
      (p.compare .qualitative 0 3 = .ok .equal ∨
        p.compare .qualitative 0 3 = .ok .incomparable) := by
  obtain ⟨p, t, hload, hp⟩ := exists_load_dinner
  obtain ⟨-, hpenalties, hdegrees⟩ := Prod.mk.inj hp |>.imp_right Prod.mk.inj
  have hpenalty : p.optimal .penalty = [0] := by
    show p.penalties.optimal = [0]
    rw [PenaltyTable.optimal, hpenalties]
    decide
  have hqualitative : p.optimal .qualitative = [0, 3] := by
    show p.degrees.optimal = [0, 3]
    rw [DegreeTable.optimal, hdegrees]
    decide
  obtain ⟨v, f, penaltyRules, choiceRules, -, u, hreturns⟩ := exists_evaluate_of_load hload
  obtain ⟨hoptimal, -, hincomparable⟩ := optimal_iff_undominated hreturns
  refine ⟨p, t, hload, hpenalty, hqualitative, ?_, ?_⟩
  · exact ((hoptimal .penalty).1 0).mp (by rw [hpenalty]; decide) |>.2
  · exact hincomparable 0 (by rw [hqualitative]; decide) 3 (by rw [hqualitative]; decide)

end PreferenceLogic.Problem
