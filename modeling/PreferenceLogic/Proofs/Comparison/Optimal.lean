import Mathlib.Data.Fintype.Card
import Mathlib.Data.Set.Finite.List
import PreferenceLogic.Proofs.Comparison.Order
import PreferenceLogic.Proofs.Score.Degree

/-!
# Optimal rows

Both logics compare rows pair by pair, and both call a row optimal if no row is strictly preferred
to it. The table of penalties finds these rows by the least total, the table of degrees by looking
at all pairs. As there are finitely many rows and strict preference has no cycles, every row that is
not optimal has an optimal row that is preferred to it.

Definitions:
* `Comparison.Coherent`: the outcomes for some rows are those of a strict preference.
* `undominated`: the rows to which no row is strictly preferred.
* `DegreeTable.Rectangular`: all rows have degrees for equally many rules.

Results:
* `Comparison.Coherent.exists_undominated`: a row is undominated or an undominated row is preferred.
* `PenaltyTable.optimal_eq`, `DegreeTable.optimal_eq`: the optimal objects are those of the
  undominated rows.
* `DegreeTable.optimal_complete`: to each object that is not optimal, an optimal one is preferred.
-/

namespace PreferenceLogic

variable {ρ : Type}

/-- The rows to which no row is strictly preferred, in their order. -/
def undominated (prefer : ρ → ρ → Comparison) (rows : List ρ) : List ρ :=
  rows.filter fun row => !rows.any fun other => prefer other row == .first

theorem mem_undominated_iff {prefer : ρ → ρ → Comparison} {rows : List ρ} {row : ρ} :
    row ∈ undominated prefer rows ↔ row ∈ rows ∧ ∀ other ∈ rows, prefer other row ≠ .first := by
  simp [undominated]

theorem undominated_map {τ : Type} (prefer : τ → τ → Comparison) (f : ρ → τ) (rows : List ρ) :
    undominated prefer (rows.map f) =
      (undominated (fun x y => prefer (f x) (f y)) rows).map f := by
  unfold undominated
  rw [List.filter_map]
  simp only [List.any_map, Function.comp_def]

namespace Comparison

/-! ## Coherent outcomes -/

/-- The outcomes for some rows: swapping two rows reverses the outcome, and strict preference is
transitive. -/
structure Coherent (prefer : ρ → ρ → Comparison) (rows : List ρ) : Prop where
  swap : ∀ x ∈ rows, ∀ y ∈ rows, prefer y x = (prefer x y).reverse
  trans : ∀ x ∈ rows, ∀ y ∈ rows, ∀ z ∈ rows,
    prefer x y = .first → prefer y z = .first → prefer x z = .first

namespace Coherent

variable {prefer : ρ → ρ → Comparison} {rows : List ρ} (h : Coherent prefer rows)

include h

theorem irrefl {x : ρ} (hx : x ∈ rows) : prefer x x ≠ .first := by
  intro hfirst
  have hswap := h.swap x hx x hx
  rw [hfirst] at hswap
  cases hswap

/-- Strict preference between finitely many rows cannot go on for ever. -/
theorem wellFounded : WellFounded fun x y : {row // row ∈ rows} => prefer x y = .first := by
  have : Finite {row // row ∈ rows} := rows.finite_toSet.to_subtype
  have : IsTrans {row // row ∈ rows} fun x y => prefer x y = .first :=
    ⟨fun x y z => h.trans x x.2 y y.2 z z.2⟩
  have : Std.Irrefl fun x y : {row // row ∈ rows} => prefer x y = .first :=
    ⟨fun x => h.irrefl x.2⟩
  exact Finite.wellFounded_of_trans_of_irrefl _

theorem exists_undominated {x : ρ} (hx : x ∈ rows) :
    x ∈ undominated prefer rows ∨ ∃ y ∈ undominated prefer rows, prefer y x = .first := by
  -- by induction on strict preference: a row that is preferred is undominated or has such a row
  have hall : ∀ x : {row // row ∈ rows}, x.1 ∈ undominated prefer rows ∨
      ∃ y ∈ undominated prefer rows, prefer y x = .first := by
    intro x
    induction x using h.wellFounded.induction with
    | _ x ih =>
      by_cases hundominated : ∀ other ∈ rows, prefer other x ≠ .first
      · exact .inl (mem_undominated_iff.mpr ⟨x.2, hundominated⟩)
      · push Not at hundominated
        obtain ⟨other, hother, hfirst⟩ := hundominated
        rcases ih ⟨other, hother⟩ hfirst with hmem | ⟨y, hy, hyfirst⟩
        · exact .inr ⟨other, hmem, hfirst⟩
        · have hyrows : y ∈ rows := (mem_undominated_iff.mp hy).1
          exact .inr ⟨y, hy, h.trans y hyrows other hother x x.2 hyfirst hfirst⟩
  exact hall ⟨x, hx⟩

theorem undominated_eq_nil_iff : undominated prefer rows = [] ↔ rows = [] := by
  constructor
  · intro hnil
    rw [List.eq_nil_iff_forall_not_mem]
    intro x hx
    rcases h.exists_undominated hx with hmem | ⟨y, hmem, -⟩
    · rw [hnil] at hmem
      cases hmem
    · rw [hnil] at hmem
      cases hmem
  · intro hnil
    rw [hnil]
    rfl

/-- Neither of two undominated rows is preferred to the other. -/
theorem prefer_of_undominated {x y : ρ} (hx : x ∈ undominated prefer rows)
    (hy : y ∈ undominated prefer rows) : prefer x y = .equal ∨ prefer x y = .incomparable := by
  obtain ⟨hxrows, hxnone⟩ := mem_undominated_iff.mp hx
  obtain ⟨hyrows, hynone⟩ := mem_undominated_iff.mp hy
  have hxy := hynone x hxrows
  have hyx := hxnone y hyrows
  rw [h.swap x hxrows y hyrows] at hyx
  cases hprefer : prefer x y with
  | first => exact absurd hprefer hxy
  | second =>
    rw [hprefer] at hyx
    exact absurd rfl hyx
  | equal => exact .inl rfl
  | incomparable => exact .inr rfl

end Coherent

end Comparison

/-! ## Penalties -/

theorem Comparison.coherent_penalties (rows : List PenaltyRow) :
    Coherent (fun x y => ofTotals x.total y.total) rows where
  swap _ _ _ _ := ofTotals_swap _ _
  trans _ _ _ _ _ _ := ofTotals_trans

/-- A row has the least total exactly when no row has a lower one. -/
theorem PenaltyTable.optimal_eq (table : PenaltyTable) :
    table.optimal = (undominated (fun x y => Comparison.ofTotals x.total y.total)
      table.rows).map PenaltyRow.object := by
  unfold optimal
  split
  · rename_i hmin
    rw [List.min?_eq_none_iff, List.map_eq_nil_iff] at hmin
    rw [hmin]
    rfl
  · rename_i least hmin
    obtain ⟨hmem, hle⟩ := List.min?_eq_some_iff.mp hmin
    obtain ⟨first, hfirst, hleast⟩ := List.mem_map.mp hmem
    congr 1
    apply List.filter_congr
    intro row hrow
    have hrowle : least ≤ row.total := hle row.total (List.mem_map_of_mem hrow)
    rw [Bool.eq_iff_iff]
    simp only [beq_iff_eq, Bool.not_eq_true', List.any_eq_false, Comparison.ofTotals_eq_first_iff,
      Nat.not_lt]
    constructor
    · intro htotal other hother
      rw [htotal]
      exact hle other.total (List.mem_map_of_mem hother)
    · intro hnone
      have hfirstle := hnone first hfirst
      omega

/-! ## Degrees -/

namespace DegreeTable

/-- All rows of a table have degrees for equally many rules. -/
def Rectangular (table : DegreeTable) : Prop :=
  ∀ x ∈ table.rows, ∀ y ∈ table.rows, x.degrees.length = y.degrees.length

variable {table : DegreeTable}

theorem rectangular_of_score {σ : Type} {o : Oracle σ} {rules : List ChoiceRule}
    {objects : List Object} {ids : List Nat} (h : (score o rules objects ids).Yields table) :
    table.Rectangular :=
  fun _ hx _ hy => (length_degrees h hx).trans (length_degrees h hy).symm

theorem Rectangular.coherent (h : table.Rectangular) :
    Comparison.Coherent (fun x y => Comparison.ofDegrees x.degrees y.degrees) table.rows where
  swap _ _ _ _ := Comparison.ofDegrees_swap _ _
  trans x hx y hy z hz := Comparison.ofDegrees_trans (h x hx y hy) (h y hy z hz)

theorem optimal_eq (table : DegreeTable) :
    table.optimal = (undominated (fun x y => Comparison.ofDegrees x.degrees y.degrees)
      table.rows).map DegreeRow.object := rfl

/-- **Completeness.** A table that is scored has equally many degrees in all of its rows, whatever
the oracle answers. In every table of this kind, some row of an optimal object is strictly preferred
to each row whose object is not optimal. -/
theorem optimal_complete (table : DegreeTable) :
    (∀ {σ : Type} (o : Oracle σ) (rules : List ChoiceRule) (objects : List Object) (ids : List Nat),
      (score o rules objects ids).Yields table → table.Rectangular) ∧
    (table.Rectangular → ∀ row ∈ table.rows, row.object ∉ table.optimal →
      ∃ best ∈ table.rows, best.object ∈ table.optimal ∧
        Comparison.ofDegrees best.degrees row.degrees = .first) := by
  refine ⟨fun o rules objects ids => rectangular_of_score, fun h row hrow hnot => ?_⟩
  have hoptimal : ∀ best ∈ undominated (fun x y => Comparison.ofDegrees x.degrees y.degrees)
      table.rows, best.object ∈ table.optimal := by
    intro best hbest
    rw [optimal_eq]
    exact List.mem_map_of_mem hbest
  rcases h.coherent.exists_undominated hrow with hmem | ⟨best, hbest, hfirst⟩
  · exact absurd (hoptimal row hmem) hnot
  · exact ⟨best, (mem_undominated_iff.mp hbest).1, hoptimal best hbest, hfirst⟩

/-- A rule for the wine and one for the dish, with two tiers each. -/
def mealRules : List ChoiceRule :=
  [⟨"white BT red".toList, [.ofClauses 2 [[⟨1, true⟩]], .ofClauses 2 [[⟨1, false⟩]]], none⟩,
    ⟨"meat BT fish".toList, [.ofClauses 2 [[⟨0, false⟩]], .ofClauses 2 [[⟨0, true⟩]]], none⟩]

/-- The degrees of five objects, as an oracle with prepared answers has them. The second object is
worse than the first, and the fourth is worse than the second. The third cannot be compared with
the first two, and the last has the same degrees. -/
def meals : DegreeTable where
  rules := mealRules.map ChoiceRule.name
  rows := [⟨0, [.tier 1, .tier 2]⟩, ⟨1, [.tier 1, .unsatisfied]⟩, ⟨2, [.tier 2, .tier 1]⟩,
    ⟨3, [.unsatisfied, .unsatisfied]⟩, ⟨4, [.tier 2, .tier 1]⟩]

/-- The second object is preferred to the fourth and is not optimal itself, but then there is an
optimal object that is preferred to the fourth as well. -/
theorem optimal_complete_meals :
    (score (.scripted (.ok [])) mealRules ((List.range 5).map Vocabulary.empty.object)
      (List.range 5)).Yields meals ∧ meals.Rectangular ∧ meals.optimal = [0, 2, 4] ∧
    ∃ best ∈ meals.rows, best.object ∈ meals.optimal ∧
      Comparison.ofDegrees best.degrees [.unsatisfied, .unsatisfied] = .first := by
  have hscore : (score (.scripted (.ok [])) mealRules
      ((List.range 5).map Vocabulary.empty.object) (List.range 5)).Yields meals := by
    obtain ⟨table, t, hreturns, rfl⟩ := Evaluation.exists_returns_of_map_eq
      (e := score (.scripted (.ok [])) mealRules ((List.range 5).map Vocabulary.empty.object)
        (List.range 5))
      (s := { oracle := [true, false, true, true, false, false, false, true, true, false, false,
        false, false, false, true, true].map .ok }) (f := id) (b := meals) (by decide)
    exact hreturns.yields
  obtain ⟨hscored, hcomplete⟩ := optimal_complete meals
  have hrectangular := hscored _ _ _ _ hscore
  exact ⟨hscore, hrectangular, by decide, hcomplete hrectangular
    ⟨3, [.unsatisfied, .unsatisfied]⟩ (by decide) (by decide)⟩

end DegreeTable

end PreferenceLogic
