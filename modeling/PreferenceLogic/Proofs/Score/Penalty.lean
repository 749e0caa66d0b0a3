import Mathlib.Algebra.Ring.Nat
import PreferenceLogic.Penalty
import PreferenceLogic.Proofs.Evaluation
import PreferenceLogic.Proofs.Object.Pinning

/-!
# Penalty scores

Scoring goes object by object and rule by rule. Whatever the oracle answers, every row has one
penalty for each rule, which is nothing or the penalty of the rule, and the exact sum of them. Every
partial sum is compared with the limit. As penalties are not negative, this compares nothing but the
whole sum.

Results:
* `total?_eq_some_iff`, `total?_eq_none_iff`: the total is the exact sum, and it is missing exactly
  when the sum exceeds the limit.
* `PenaltyTable.of_score`: a table that is scored has one row for each number of an object, in
  their order.
* `PenaltyRow.of_score`: the row of an object has one penalty for each rule and their exact sum.
* `Oracle.charge_eq`: a correct oracle charges a rule exactly if the object violates the formula.
* `sum_charged`: charging all rules adds up to charging those that are violated.
-/

namespace PreferenceLogic

/-! ## Totals -/

theorem foldlM_addWithin?_eq_some_iff {penalties : List Nat} {start n : Nat}
    (h : start ≤ penaltyLimit) :
    penalties.foldlM addWithin? start = some n ↔
      n = start + penalties.sum ∧ start + penalties.sum ≤ penaltyLimit := by
  induction penalties generalizing start with
  | nil =>
    simp only [List.foldlM_nil, List.sum_nil, Nat.add_zero, Option.pure_def, Option.some.injEq]
    exact ⟨fun heq => ⟨heq.symm, h⟩, fun heq => heq.1.symm⟩
  | cons penalty rest ih =>
    rw [List.foldlM_cons, addWithin?]
    split
    · rename_i hle
      simp only [Option.bind_eq_bind, Option.bind_some, ih hle, List.sum_cons, Nat.add_assoc]
    · simp only [Option.bind_eq_bind, Option.bind_none, List.sum_cons, reduceCtorEq, false_iff]
      omega

theorem total?_eq_some_iff {penalties : List Nat} {n : Nat} :
    total? penalties = some n ↔ n = penalties.sum ∧ penalties.sum ≤ penaltyLimit := by
  simp [total?, foldlM_addWithin?_eq_some_iff]

theorem total?_eq_none_iff {penalties : List Nat} :
    total? penalties = none ↔ penaltyLimit < penalties.sum := by
  rw [Option.eq_none_iff_forall_not_mem]
  simp only [Option.mem_def, total?_eq_some_iff]
  constructor
  · intro h
    have := h penalties.sum
    simp only [true_and] at this
    omega
  · intro h n hn
    omega

/-! ## Scores -/

variable {σ : Type} {o : Oracle σ} {object : Object}

/-- A rule charges nothing if the oracle says that the object satisfies the formula, and otherwise
its penalty. -/
theorem Oracle.exists_answer_of_charge {rule : PenaltyRule} {n : Nat}
    (h : (o.charge rule object).Yields n) :
    ∃ answer, (o.satisfiable (object.pinned rule.formula)).Yields answer ∧
      n = if answer then 0 else rule.penalty := by
  obtain ⟨s, t, h⟩ := h
  rw [charge, Evaluation.returns_bind] at h
  obtain ⟨answer, u, hanswer, h⟩ := h
  refine ⟨answer, hanswer.yields, ?_⟩
  cases answer with
  | true => exact (Evaluation.returns_pure.mp h).1.symm
  | false => exact (Evaluation.returns_pure.mp h).1.symm

theorem Oracle.charge_eq (ho : o.Decides) {v : Vocabulary} (hobject : object ∈ v.objects)
    {rule : PenaltyRule} (hreach : rule.formula.reach ≤ v.size) {n : Nat}
    (h : (o.charge rule object).Yields n) :
    n = if rule.formula.eval object.valuation then 0 else rule.penalty := by
  obtain ⟨answer, hanswer, rfl⟩ := exists_answer_of_charge h
  have heq : answer = rule.formula.eval object.valuation := by
    rw [Bool.eq_iff_iff, ho _ _ hanswer, Vocabulary.satisfiable_pinned_iff_eval hobject hreach]
  rw [heq]

/-- The row of the object with a given number: one penalty for each rule, and their sum, which is
within the limit. -/
structure PenaltyRow.Scores (o : Oracle σ) (rules : List PenaltyRule) (id : Nat) (object : Object)
    (row : PenaltyRow) : Prop where
  object_eq : row.object = id
  penalties : List.Forall₂ (fun rule n => (o.charge rule object).Yields n) rules row.penalties
  total_eq : row.total = row.penalties.sum
  total_le : row.total ≤ penaltyLimit

theorem PenaltyRow.of_score {rules : List PenaltyRule} {id : Nat} {row : PenaltyRow}
    (h : (PenaltyRow.score o rules id object).Yields row) : row.Scores o rules id object := by
  obtain ⟨s, t, h⟩ := h
  rw [score, Evaluation.returns_bind] at h
  obtain ⟨penalties, u, hpenalties, h⟩ := h
  have hcharges := hpenalties.forall₂_of_mapM
  cases htotal : total? penalties with
  | none =>
    rw [htotal] at h
    simp at h
  | some total =>
    rw [htotal] at h
    simp only [Evaluation.returns_bind, Evaluation.returns_note, Evaluation.returns_pure] at h
    obtain ⟨_, _, _, rfl, _⟩ := h
    obtain ⟨hsum, hle⟩ := total?_eq_some_iff.mp htotal
    refine ⟨rfl, hcharges.imp fun rule n hn => ?_, hsum, by show total ≤ _; omega⟩
    obtain ⟨s, t, hn⟩ := hn
    exact (Evaluation.returns_adapt.mp hn).yields

theorem PenaltyTable.of_score {rules : List PenaltyRule} {objects : List Object} {ids : List Nat}
    {table : PenaltyTable} (h : (PenaltyTable.score o rules objects ids).Yields table) :
    table.rules = rules.map PenaltyRule.name ∧
      List.Forall₂ (fun id row => PenaltyRow.Scores o rules id objects[id]! row) ids
        table.rows := by
  obtain ⟨s, t, h⟩ := h
  simp only [score, List.getElem!_toArray, Evaluation.returns_bind, Evaluation.returns_pure] at h
  obtain ⟨rows, u, hrows, rfl, -⟩ := h
  exact ⟨rfl, hrows.forall₂_of_mapM.imp fun _ _ => PenaltyRow.of_score⟩

/-- Charging all rules, some of them nothing, adds up to the penalties of the others. -/
theorem sum_charged (satisfied : PenaltyRule → Prop) [DecidablePred satisfied]
    (rules : List PenaltyRule) :
    (rules.map fun rule => if satisfied rule then 0 else rule.penalty).sum =
      ((rules.filter fun rule => ¬ satisfied rule).map PenaltyRule.penalty).sum := by
  induction rules with
  | nil => rfl
  | cons rule rest ih =>
    by_cases h : satisfied rule
    · simp [h, ih]
    · simp [h, ih]

end PreferenceLogic
