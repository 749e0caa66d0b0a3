import Mathlib.Data.List.Forall2
import Mathlib.Data.List.Zip
import Mathlib.Order.WithBot
import PreferenceLogic.Comparison

/-!
# The orders behind the comparisons

Degrees are linearly ordered: a degree is better if its rank is lower, and the worst degree has the
last place. Degrees of the same rules are compared place by place, so that strict preference is the
strict part of a partial order. Totals are compared as numbers.

Definitions:
* `Degree.place`: the place of a degree in the order.
* `NoWorse`: the degrees of one object are nowhere worse than those of another.

Results:
* `Comparison.ofDegrees_eq_iff`: an object is preferred if it is nowhere worse and the other one is
  somewhere worse.
* `Comparison.ofDegrees_swap`, `Comparison.ofTotals_swap`: swapping the objects reverses the
  outcome.
* `Comparison.ofDegrees_trans`, `Comparison.ofTotals_trans`: strict preference is transitive.
-/

namespace PreferenceLogic

/-! ## Degrees -/

namespace Degree

/-- The place of a degree, the best one first. -/
def place : Degree → WithTop ℕ
  | tier rank => WithTop.some rank
  | unsatisfied => ⊤

theorem better_iff {a b : Degree} : a.better b = true ↔ a.place < b.place := by
  cases a with
  | tier i =>
    cases b with
    | tier j => simp [better, order, place, Nat.compare_eq_lt]
    | unsatisfied => simp [better, order, place]
  | unsatisfied =>
    cases b with
    | tier j => simp [better, order, place]
    | unsatisfied => simp [better, order, place]

end Degree

/-- Degrees for the same rules are nowhere worse than others. -/
def NoWorse (a b : List Degree) : Prop := List.Forall₂ (fun x y => x.place ≤ y.place) a b

section

variable {a b c : List Degree}

theorem NoWorse.trans (hab : NoWorse a b) (hbc : NoWorse b c) : NoWorse a c := by
  unfold NoWorse at hab hbc ⊢
  induction hab generalizing c with
  | nil => exact hbc
  | cons hxy _ ih =>
    obtain ⟨z, rest, hyz, hrest, rfl⟩ := List.forall₂_cons_left_iff.mp hbc
    exact .cons (le_trans hxy hyz) (ih hrest)

/-- The degrees are nowhere worse if no degree beside them is better. -/
theorem noWorse_iff (h : a.length = b.length) :
    NoWorse a b ↔ ((a.zip b).any fun pair => pair.2.better pair.1) = false := by
  rw [NoWorse, List.forall₂_iff_zip, List.any_eq_false]
  simp only [h, true_and, Degree.better_iff, not_lt, Prod.forall]

theorem any_zip_swap (p : Degree → Degree → Bool) :
    ((b.zip a).any fun pair => p pair.1 pair.2) = (a.zip b).any fun pair => p pair.2 pair.1 := by
  rw [← List.zip_swap, List.any_map]
  rfl

end

/-! ## Outcomes -/

namespace Comparison

section

variable {a b c : List Degree}

/-- An object is preferred if it is nowhere worse and the other one somewhere is. If each is nowhere
worse, or each is somewhere worse, none is preferred. -/
theorem ofDegrees_eq_iff (h : a.length = b.length) :
    (ofDegrees a b = .first ↔ NoWorse a b ∧ ¬ NoWorse b a) ∧
      (ofDegrees a b = .equal ↔ NoWorse a b ∧ NoWorse b a) ∧
      (ofDegrees a b = .incomparable ↔ ¬ NoWorse a b ∧ ¬ NoWorse b a) := by
  have hback := any_zip_swap (a := a) (b := b) fun x y => y.better x
  rw [noWorse_iff h, noWorse_iff h.symm, hback]
  unfold ofDegrees
  generalize ((a.zip b).any fun pair => pair.1.better pair.2) = firstBetter
  generalize ((a.zip b).any fun pair => pair.2.better pair.1) = secondBetter
  cases firstBetter <;> cases secondBetter <;> simp

theorem ofDegrees_eq_first_iff (h : a.length = b.length) :
    ofDegrees a b = .first ↔ NoWorse a b ∧ ¬ NoWorse b a := (ofDegrees_eq_iff h).1

theorem ofDegrees_swap (a b : List Degree) : ofDegrees b a = (ofDegrees a b).reverse := by
  have hfirst := any_zip_swap (a := a) (b := b) Degree.better
  have hsecond := any_zip_swap (a := a) (b := b) fun x y => y.better x
  unfold ofDegrees
  rw [hfirst, hsecond]
  generalize ((a.zip b).any fun pair => pair.1.better pair.2) = firstBetter
  generalize ((a.zip b).any fun pair => pair.2.better pair.1) = secondBetter
  cases firstBetter <;> cases secondBetter <;> rfl

theorem ofDegrees_trans (hab : a.length = b.length) (hbc : b.length = c.length)
    (h1 : ofDegrees a b = .first) (h2 : ofDegrees b c = .first) : ofDegrees a c = .first := by
  rw [ofDegrees_eq_first_iff hab] at h1
  rw [ofDegrees_eq_first_iff hbc] at h2
  rw [ofDegrees_eq_first_iff (hab.trans hbc)]
  refine ⟨h1.1.trans h2.1, fun hca => ?_⟩
  exact h1.2 (h2.1.trans hca)

end

section

variable {a b c : Nat}

theorem ofTotals_eq_first_iff : ofTotals a b = .first ↔ a < b := by
  unfold ofTotals
  by_cases h1 : a < b
  · simp [h1]
  · by_cases h2 : b < a <;> simp [h1, h2]

theorem ofTotals_swap (a b : Nat) : ofTotals b a = (ofTotals a b).reverse := by
  unfold ofTotals
  rcases Nat.lt_trichotomy a b with h | h | h
  · rw [if_neg (by omega), if_pos h, if_pos h]
    rfl
  · subst h
    simp [reverse]
  · rw [if_pos h, if_neg (by omega), if_pos h]
    rfl

theorem ofTotals_trans (h1 : ofTotals a b = .first) (h2 : ofTotals b c = .first) :
    ofTotals a c = .first := by
  rw [ofTotals_eq_first_iff] at *
  omega

theorem ofTotals_ne_incomparable (a b : Nat) : ofTotals a b ≠ .incomparable := by
  unfold ofTotals
  split
  · decide
  · split <;> decide

end

end Comparison

end PreferenceLogic
