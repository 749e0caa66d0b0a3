import PreferenceLogic.Proofs.Problem.Optimal

/-!
# Lookups and tables

The feasible objects, the penalties and the degrees are three lists, and an object is looked up in
each of them by halving. All lookups agree with the lists and so with one another: exactly the
feasible objects are found, each with the only row it has. So a comparison fails exactly when one of
the two objects is not feasible, and the first such object is the error.

Definitions:
* `OnlyRow`: a row is the only one with a given number.
* `Problem.ComparesWithin`: some objects can be compared with one another, and only they.

Results:
* `lookup?_eq_some_iff_onlyRow`: what is looked up is the only row with the number.
* `Problem.comparesWithin`: objects with scores can be compared, and only they.
* `Problem.lookups_of_evaluate`: the lookups of an evaluated problem agree.
-/

namespace PreferenceLogic

/-! ## The only row -/

section

variable {ρ : Type} {number : ρ → Nat} {rows : List ρ} {id : Nat} {row : ρ}

/-- A row is the only one with a given number. -/
def OnlyRow (number : ρ → Nat) (rows : List ρ) (id : Nat) (row : ρ) : Prop :=
  (rows.filter fun row => number row == id) = [row]

/-- In rows whose numbers increase, no other row has the number of a row. -/
theorem onlyRow_of_mem (hsorted : (rows.map number).Pairwise (· < ·)) (hrow : row ∈ rows) :
    OnlyRow number rows (number row) row := by
  obtain ⟨before, after, rfl⟩ := List.append_of_mem hrow
  rw [List.map_append, List.map_cons, List.pairwise_append, List.pairwise_cons] at hsorted
  obtain ⟨-, ⟨hafter, -⟩, hbefore⟩ := hsorted
  have hnone : ∀ l : List ρ, (∀ other ∈ l, number other ≠ number row) →
      (l.filter fun other => number other == number row) = [] := by
    intro l hl
    rw [List.filter_eq_nil_iff]
    intro other hother
    rw [beq_iff_eq]
    exact hl other hother
  rw [OnlyRow, List.filter_append, List.filter_cons, if_pos (beq_self_eq_true (number row)),
    hnone before, hnone after, List.nil_append]
  · intro other hother
    exact Nat.ne_of_gt (hafter _ (List.mem_map_of_mem hother))
  · intro other hother
    exact Nat.ne_of_lt (hbefore _ (List.mem_map_of_mem hother) _ List.mem_cons_self)

theorem lookup?_eq_some_iff_onlyRow (hsorted : (rows.map number).Pairwise (· < ·)) :
    lookup? number rows id = some row ↔ OnlyRow number rows id row := by
  rw [lookup?_eq_some_iff hsorted]
  constructor
  · rintro ⟨hrow, rfl⟩
    exact onlyRow_of_mem hsorted hrow
  · intro h
    have hmem : row ∈ rows.filter fun row => number row == id := by
      rw [show (rows.filter fun row => number row == id) = [row] from h]
      exact List.mem_singleton_self row
    rw [List.mem_filter, beq_iff_eq] at hmem
    exact hmem

/-- What is looked up of a row is that of the only row with the number. -/
theorem map_lookup?_eq_some_iff {α : Type} {score : ρ → α} {value : α}
    (hsorted : (rows.map number).Pairwise (· < ·)) :
    (lookup? number rows id).map score = some value ↔
      ∃ row, OnlyRow number rows id row ∧ score row = value := by
  simp only [Option.map_eq_some_iff, lookup?_eq_some_iff_onlyRow hsorted]

end

namespace Problem

/-! ## Comparisons -/

/-- Some objects can be compared with one another, and only they. The first object that cannot be
compared is the error. Swapping the objects reverses the outcome. -/
structure ComparesWithin (ids : List Nat) (compare : Nat → Nat → Except Error Comparison) :
    Prop where
  exists_ok_iff : ∀ a b, (∃ c, compare a b = .ok c) ↔ a ∈ ids ∧ b ∈ ids
  error_first : ∀ a b, a ∉ ids → compare a b = .error (.notFeasible a)
  error_second : ∀ a b, a ∈ ids → b ∉ ids → compare a b = .error (.notFeasible b)
  swap : ∀ a b c, compare a b = .ok c → compare b a = .ok c.reverse

section

variable {α : Type} {ids : List Nat} {score? : Nat → Option α} {outcome : α → α → Comparison}

theorem scoreOf_eq_error_iff {id : Nat} {err : Error} :
    scoreOf score? id = .error err ↔ score? id = none ∧ err = .notFeasible id := by
  unfold scoreOf
  cases score? id <;> simp [eq_comm]

/-- Objects with scores can be compared, and only they. -/
theorem comparesWithin (hscore : ∀ id, (score? id).isSome ↔ id ∈ ids)
    (hswap : ∀ x y, outcome y x = (outcome x y).reverse) :
    ComparesWithin ids fun a b => do
      let x ← scoreOf score? a
      let y ← scoreOf score? b
      return outcome x y := by
  have hok : ∀ {id}, id ∈ ids → ∃ x, scoreOf score? id = .ok x := by
    intro id hid
    obtain ⟨x, hx⟩ := Option.isSome_iff_exists.mp ((hscore id).mpr hid)
    exact ⟨x, scoreOf_eq_ok_iff.mpr hx⟩
  have hmem : ∀ {id x}, scoreOf score? id = .ok x → id ∈ ids := by
    intro id x hx
    exact (hscore id).mp (Option.isSome_iff_exists.mpr ⟨x, scoreOf_eq_ok_iff.mp hx⟩)
  have herror : ∀ {id}, id ∉ ids → scoreOf score? id = .error (.notFeasible id) := by
    intro id hid
    rw [← hscore, Option.not_isSome_iff_eq_none] at hid
    exact scoreOf_eq_error_iff.mpr ⟨hid, rfl⟩
  constructor
  case exists_ok_iff =>
    intro a b
    simp only [bind_eq_ok_iff]
    constructor
    · rintro ⟨c, x, hx, y, hy, -⟩
      exact ⟨hmem hx, hmem hy⟩
    · rintro ⟨ha, hb⟩
      obtain ⟨x, hx⟩ := hok ha
      obtain ⟨y, hy⟩ := hok hb
      exact ⟨outcome x y, x, hx, y, hy, rfl⟩
  case error_first =>
    intro a b ha
    simp only [herror ha]
    rfl
  case error_second =>
    intro a b ha hb
    obtain ⟨x, hx⟩ := hok ha
    simp only [hx, herror hb]
    rfl
  case swap =>
    intro a b c h
    simp only [bind_eq_ok_iff] at h ⊢
    obtain ⟨x, hx, y, hy, hc⟩ := h
    obtain rfl := Except.ok.inj hc
    exact ⟨y, hy, x, hx, congrArg Except.ok (hswap x y)⟩

end

/-! ## Evaluated problems -/

variable {σ : Type} {o : Oracle σ} {config : Config} {v : Vocabulary} {constraints : Formula}
  {penaltyRules : List PenaltyRule} {choiceRules : List ChoiceRule} {p : Problem}

namespace Evaluated

variable (h : p.Evaluated o config v constraints penaltyRules choiceRules)

include h

theorem isSome_row?_iff (id : Nat) : (p.penalties.row? id).isSome ↔ id ∈ p.feasible := by
  rw [PenaltyTable.row?, lookup?_isSome_iff h.pairwise_penalties, h.map_object_penalties]

theorem isSome_total?_iff (id : Nat) : (p.penalties.total? id).isSome ↔ id ∈ p.feasible := by
  rw [PenaltyTable.total?, Option.isSome_map, h.isSome_row?_iff]

theorem isSome_degrees?_iff (id : Nat) : (p.degrees.degrees? id).isSome ↔ id ∈ p.feasible := by
  rw [DegreeTable.degrees?, Option.isSome_map, lookup?_isSome_iff h.pairwise_degrees,
    h.map_object_degrees]

theorem comparesWithin (logic : Logic) : ComparesWithin p.feasible (p.compare logic) := by
  cases logic with
  | penalty => exact Problem.comparesWithin h.isSome_total?_iff Comparison.ofTotals_swap
  | qualitative => exact Problem.comparesWithin h.isSome_degrees?_iff Comparison.ofDegrees_swap

end Evaluated

/-- **Lookups.** In every problem that is evaluated, whatever the oracle answers, an object is found
among the feasible ones, among the penalties and among the degrees alike: exactly if its number is
that of a feasible object. What is found is the only row with this number. The feasible objects can
be compared with one another in both logics, and only they; the first object that is not feasible is
the error. Swapping the objects reverses the outcome, and totals are never incomparable. -/
theorem lookups_of_evaluate {s t : Session σ}
    (hreturns : (evaluate o config v constraints penaltyRules choiceRules).Returns s p t) :
    (∀ id,
      (p.isFeasible id = true ↔ id ∈ p.feasible) ∧
      ((p.penalties.row? id).isSome ↔ id ∈ p.feasible) ∧
      ((p.penalties.total? id).isSome ↔ id ∈ p.feasible) ∧
      ((p.degrees.degrees? id).isSome ↔ id ∈ p.feasible)) ∧
    (∀ id,
      (∀ row, p.penalties.row? id = some row ↔
        OnlyRow PenaltyRow.object p.penalties.rows id row) ∧
      (∀ total, p.penalties.total? id = some total ↔
        ∃ row, OnlyRow PenaltyRow.object p.penalties.rows id row ∧ row.total = total) ∧
      (∀ degrees, p.degrees.degrees? id = some degrees ↔
        ∃ row, OnlyRow DegreeRow.object p.degrees.rows id row ∧ row.degrees = degrees)) ∧
    (∀ logic, ComparesWithin p.feasible (p.compare logic)) ∧
    ∀ a b, p.compare .penalty a b ≠ .ok .incomparable := by
  have h := evaluated_of_returns hreturns
  refine ⟨fun id => ?_, fun id => ?_, h.comparesWithin, fun a b hincomparable => ?_⟩
  · exact ⟨h.isFeasible_iff, h.isSome_row?_iff id, h.isSome_total?_iff id,
      h.isSome_degrees?_iff id⟩
  · exact ⟨fun row => lookup?_eq_some_iff_onlyRow h.pairwise_penalties,
      fun total => map_lookup?_eq_some_iff h.pairwise_penalties,
      fun degrees => map_lookup?_eq_some_iff h.pairwise_degrees⟩
  · obtain ⟨x, -, y, -, -, -, hprefer⟩ :=
      (h.ranked_penalty.compare_eq_ok_iff _ _ _).mp hincomparable
    exact Comparison.ofTotals_ne_incomparable _ _ hprefer

/-- Fish with red wine is excluded, so it has no row and cannot be compared. Meat with white wine is
found with its only row, and there is no dinner with the number 7. -/
theorem lookups_of_evaluate_dinner :
    ∃ p t, (load Oracle.exact {} (dinner "fish OR NOT white\n")).Returns { oracle := 0 } p t ∧
      p.isFeasible 1 = false ∧ (p.penalties.row? 1).isNone ∧ (p.degrees.degrees? 1).isNone ∧
      p.penalties.row? 2 = some ⟨2, [3, 0], 3⟩ ∧
      p.compare .penalty 1 7 = .error (.notFeasible 1) ∧
      p.compare .qualitative 2 7 = .error (.notFeasible 7) ∧
      ∃ c, p.compare .qualitative 3 2 = .ok c ∧ p.compare .qualitative 2 3 = .ok c.reverse := by
  obtain ⟨p, t, hload, hp⟩ := exists_load_dinner
  obtain ⟨hids, hrows, hdegrees⟩ := Prod.mk.inj hp |>.imp_right Prod.mk.inj
  obtain ⟨v, f, penaltyRules, choiceRules, -, u, hreturns⟩ := exists_evaluate_of_load hload
  obtain ⟨hfound, honly, hcompare, -⟩ := lookups_of_evaluate hreturns
  have h1 : 1 ∉ p.feasible := by rw [hids]; decide
  have h2 : 2 ∈ p.feasible := by rw [hids]; decide
  have h3 : 3 ∈ p.feasible := by rw [hids]; decide
  have h7 : 7 ∉ p.feasible := by rw [hids]; decide
  obtain ⟨hfeasible, hrow, -, hdegree⟩ := hfound 1
  obtain ⟨c, hc⟩ := ((hcompare .qualitative).exists_ok_iff 3 2).mpr ⟨h3, h2⟩
  refine ⟨p, t, hload, ?_, ?_, ?_, ?_, (hcompare .penalty).error_first 1 7 h1,
    (hcompare .qualitative).error_second 2 7 h2 h7, c, hc, (hcompare .qualitative).swap 3 2 c hc⟩
  · rwa [← hfeasible, Bool.not_eq_true] at h1
  · rwa [← hrow, Option.not_isSome_iff_eq_none, ← Option.isNone_iff_eq_none] at h1
  · rwa [← hdegree, Option.not_isSome_iff_eq_none, ← Option.isNone_iff_eq_none] at h1
  · refine ((honly 2).1 _).mpr ?_
    rw [OnlyRow, hrows]
    decide

end Problem

end PreferenceLogic
