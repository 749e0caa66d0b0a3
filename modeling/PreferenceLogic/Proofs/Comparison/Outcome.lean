import PreferenceLogic.Proofs.Comparison.Order

/-!
# Outcomes of comparisons

The outcome of a comparison says at which places one object is better than the other. Strict
preference is a strict order in both logics, outcomes are equal only for the same scores, and so a
score may be replaced by an equal one in every comparison. Totals can always be compared, degrees
cannot.

Definitions:
* `Degree.Before`: a degree is better than another one.
* `BetterAt`: the degrees of one object are better than those of another one at a place.
* `Comparison.Lawful`: what the outcomes of all comparisons have in common.

Results:
* `Comparison.ofDegrees_eq_first_iff_betterAt`, `Comparison.ofDegrees_eq_incomparable_iff`: where
  one object is better, and where the other one.
* `Comparison.ofDegrees_eq_equal_iff`, `Comparison.ofTotals_eq_equal_iff`: only the same scores are
  equal.
* `Comparison.lawful_outcomes`: the comparisons of both logics are lawful.
-/

namespace PreferenceLogic

/-! ## Better degrees -/

namespace Degree

/-- A degree is better than another one: lower ranks are better, and every rank is better than the
worst degree. -/
inductive Before : Degree → Degree → Prop where
  | rank {i j : Nat} (h : i < j) : Before (.tier i) (.tier j)
  | worst (i : Nat) : Before (.tier i) .unsatisfied

theorem before_iff {a b : Degree} : a.Before b ↔ a.place < b.place := by
  constructor
  · intro h
    cases h with
    | rank h => exact WithTop.coe_lt_coe.mpr h
    | worst i => exact WithTop.coe_lt_top i
  · intro h
    cases a with
    | tier i =>
      cases b with
      | tier j => exact .rank (WithTop.coe_lt_coe.mp h)
      | unsatisfied => exact .worst i
    | unsatisfied => exact absurd h not_top_lt

theorem place_inj {a b : Degree} (h : a.place = b.place) : a = b := by
  cases a with
  | tier i =>
    cases b with
    | tier j => rw [WithTop.coe_inj.mp h]
    | unsatisfied => exact absurd h WithTop.coe_ne_top
  | unsatisfied =>
    cases b with
    | tier j => exact absurd h WithTop.top_ne_coe
    | unsatisfied => rfl

end Degree

/-- At a place, some degrees are better than others. -/
def BetterAt (a b : List Degree) (place : Nat) : Prop :=
  ∃ x ∈ a[place]?, ∃ y ∈ b[place]?, x.Before y

section

variable {a b c : List Degree}

/-- Degrees are nowhere worse if the others are at no place better. -/
theorem noWorse_iff_not_betterAt (h : a.length = b.length) :
    NoWorse a b ↔ ∀ place, ¬ BetterAt b a place := by
  unfold NoWorse
  rw [List.forall₂_iff_get]
  simp only [List.get_eq_getElem, h, true_and]
  constructor
  · intro hall place hbetter
    obtain ⟨y, hy, x, hx, hbefore⟩ := hbetter
    obtain ⟨hb, rfl⟩ := List.getElem?_eq_some_iff.mp hy
    obtain ⟨ha, rfl⟩ := List.getElem?_eq_some_iff.mp hx
    exact absurd (Degree.before_iff.mp hbefore) (not_lt.mpr (hall place hb hb))
  · intro hnone place ha hb
    rw [← not_lt]
    intro hlt
    have ha' : place < a.length := h ▸ ha
    exact hnone place ⟨b[place], List.getElem?_eq_getElem hb, a[place],
      List.getElem?_eq_getElem ha', Degree.before_iff.mpr hlt⟩

theorem not_noWorse_iff (h : a.length = b.length) :
    ¬ NoWorse b a ↔ ∃ place, BetterAt a b place := by
  rw [noWorse_iff_not_betterAt h.symm, not_forall_not]

/-- Two objects that are nowhere worse than each other have the same degrees. -/
theorem NoWorse.antisymm (hab : NoWorse a b) (hba : NoWorse b a) : a = b := by
  unfold NoWorse at hab hba
  induction hab with
  | nil => rfl
  | cons hxy _ ih =>
    obtain ⟨hyx, hrest⟩ := List.forall₂_cons.mp hba
    rw [Degree.place_inj (le_antisymm hxy hyx), ih hrest]

theorem noWorse_refl (a : List Degree) : NoWorse a a :=
  List.forall₂_same.mpr fun _ _ => le_refl _

end

namespace Comparison

/-! ## Degrees -/

section

variable {a b : List Degree} (h : a.length = b.length)

include h

theorem ofDegrees_eq_first_iff_betterAt :
    ofDegrees a b = .first ↔ (∀ place, ¬ BetterAt b a place) ∧ ∃ place, BetterAt a b place := by
  rw [ofDegrees_eq_first_iff h, noWorse_iff_not_betterAt h, not_noWorse_iff h]

theorem ofDegrees_eq_incomparable_iff :
    ofDegrees a b = .incomparable ↔
      (∃ place, BetterAt a b place) ∧ ∃ place, BetterAt b a place := by
  rw [(ofDegrees_eq_iff h).2.2, not_noWorse_iff h, not_noWorse_iff h.symm, and_comm]

theorem ofDegrees_eq_equal_iff : ofDegrees a b = .equal ↔ a = b := by
  rw [(ofDegrees_eq_iff h).2.1]
  constructor
  · intro hab
    exact hab.1.antisymm hab.2
  · rintro rfl
    exact ⟨noWorse_refl a, noWorse_refl a⟩

end

/-! ## Totals -/

section

variable {a b : Nat}

theorem ofTotals_eq_second_iff : ofTotals a b = .second ↔ b < a := by
  rw [← ofTotals_eq_first_iff, ofTotals_swap a b]
  cases ofTotals a b <;> simp [reverse]

theorem ofTotals_eq_equal_iff : ofTotals a b = .equal ↔ a = b := by
  unfold ofTotals
  rcases Nat.lt_trichotomy a b with h | h | h
  · simp only [if_pos h, reduceCtorEq, false_iff]
    omega
  · subst h
    simp
  · simp only [if_neg (Nat.lt_asymm h), if_pos h, reduceCtorEq, false_iff]
    omega

end

/-! ## Laws -/

/-- What the outcomes of all comparisons have in common. -/
structure Lawful {α : Type} (prefer : α → α → Comparison) : Prop where
  /-- Swapping the objects reverses the outcome. -/
  swap : ∀ a b, prefer b a = (prefer a b).reverse
  irrefl : ∀ a, prefer a a ≠ .first
  asymm : ∀ a b, prefer a b = .first → prefer b a ≠ .first
  trans : ∀ a b c, prefer a b = .first → prefer b c = .first → prefer a c = .first
  /-- Only the same scores are equal. -/
  equal_iff : ∀ a b, prefer a b = .equal ↔ a = b
  /-- Equal scores compare alike with every other one, on either side. -/
  congr_left : ∀ a b c, prefer a b = .equal → prefer a c = prefer b c
  congr_right : ∀ a b c, prefer a b = .equal → prefer c a = prefer c b

/-- All laws follow from three of them. -/
theorem Lawful.of_swap_trans {α : Type} {prefer : α → α → Comparison}
    (hswap : ∀ a b, prefer b a = (prefer a b).reverse)
    (htrans : ∀ a b c, prefer a b = .first → prefer b c = .first → prefer a c = .first)
    (hequal : ∀ a b, prefer a b = .equal ↔ a = b) : Lawful prefer where
  swap := hswap
  irrefl a hfirst := by
    rw [(hequal a a).mpr rfl] at hfirst
    cases hfirst
  asymm a b hfirst hback := by
    rw [hswap a b, hfirst] at hback
    cases hback
  trans := htrans
  equal_iff := hequal
  congr_left a b c hab := by rw [(hequal a b).mp hab]
  congr_right a b c hab := by rw [(hequal a b).mp hab]

/-- The degrees of objects for the same rules compare lawfully, however many rules there are. -/
theorem lawful_ofDegrees (rules : Nat) :
    Lawful fun a b : {degrees : List Degree // degrees.length = rules} => ofDegrees a b :=
  .of_swap_trans (fun a b => ofDegrees_swap a.1 b.1)
    (fun a b c => ofDegrees_trans (a.2.trans b.2.symm) (b.2.trans c.2.symm))
    fun a b => (ofDegrees_eq_equal_iff (a.2.trans b.2.symm)).trans Subtype.ext_iff.symm

theorem lawful_ofTotals : Lawful ofTotals :=
  .of_swap_trans ofTotals_swap (fun _ _ _ => ofTotals_trans) fun _ _ => ofTotals_eq_equal_iff

/-- **Orders.** Degrees for the same rules compare lawfully, and an object is preferred exactly if
it is at no place worse and at some place better. Totals compare lawfully too, and they are ordered
like the numbers: the lower one is preferred, so two of them are never incomparable. Being at least
as good is a total preorder of the totals. -/
theorem lawful_outcomes :
    (∀ rules : Nat,
      Lawful fun a b : {degrees : List Degree // degrees.length = rules} => ofDegrees a b) ∧
    (∀ a b : List Degree, a.length = b.length → (ofDegrees a b = .first ↔
      (∀ place, ¬ BetterAt b a place) ∧ ∃ place, BetterAt a b place)) ∧
    Lawful ofTotals ∧
    (∀ a b : Nat, (ofTotals a b = .first ↔ a < b) ∧ (ofTotals a b = .second ↔ b < a) ∧
      (ofTotals a b = .equal ↔ a = b) ∧ ofTotals a b ≠ .incomparable) ∧
    (∀ a b : Nat, ofTotals a b ≠ .second ∨ ofTotals b a ≠ .second) ∧
    ∀ a b c : Nat, ofTotals a b ≠ .second → ofTotals b c ≠ .second → ofTotals a c ≠ .second := by
  refine ⟨lawful_ofDegrees, fun a b h => ofDegrees_eq_first_iff_betterAt h, lawful_ofTotals, ?_, ?_,
    ?_⟩
  · intro a b
    exact ⟨ofTotals_eq_first_iff, ofTotals_eq_second_iff, ofTotals_eq_equal_iff,
      ofTotals_ne_incomparable a b⟩
  · intro a b
    simp only [ne_eq, ofTotals_eq_second_iff]
    omega
  · intro a b c
    simp only [ne_eq, ofTotals_eq_second_iff]
    omega

/-- An object is better for the second rule only. The object that is worse there is still preferred
to one for which neither rule counts, so the first one is preferred to this one too. -/
theorem lawful_outcomes_meals :
    ([.tier 1, .tier 2] : List Degree).length = [Degree.tier 1, .unsatisfied].length ∧
      (∀ place, ¬ BetterAt [.tier 1, .unsatisfied] [.tier 1, .tier 2] place) ∧
      (∃ place, BetterAt [.tier 1, .tier 2] [.tier 1, .unsatisfied] place) ∧
      ofDegrees [.tier 1, .tier 2] [.unsatisfied, .unsatisfied] = .first ∧
      ofTotals 3 5 ≠ .second := by
  obtain ⟨hdegrees, hfirst, -, -, -, htrans⟩ := lawful_outcomes
  have hbetter := (hfirst [.tier 1, .tier 2] [.tier 1, .unsatisfied] rfl).mp (by decide)
  refine ⟨rfl, hbetter.1, hbetter.2, ?_, htrans 3 4 5 (by decide) (by decide)⟩
  exact (hdegrees 2).trans ⟨[.tier 1, .tier 2], rfl⟩ ⟨[.tier 1, .unsatisfied], rfl⟩
    ⟨[.unsatisfied, .unsatisfied], rfl⟩ (by decide) (by decide)

end Comparison

end PreferenceLogic
