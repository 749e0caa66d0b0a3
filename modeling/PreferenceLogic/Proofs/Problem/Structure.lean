import PreferenceLogic.Proofs.Problem.Evaluation

/-!
# The structure of evaluated problems

An oracle may answer anything: it may list models that are too short or too long, list them twice or
in no order, list assignments that are no models, and confirm or deny what it likes. An evaluation
that returns has nevertheless numbered the objects without gaps, sorted the feasible ones, and put
one row beside each of them and one cell beside each rule.

Definitions:
* `Problem.WellFormed`: what every evaluated problem has in common.
* `Problem.unruly`: an oracle whose models are no models.

Results:
* `Problem.wellFormed_of_returns`: an evaluation that returns, returns a well-formed problem.
-/

namespace PreferenceLogic.Problem

/-- What every evaluated problem has in common, whatever the oracle has answered. -/
structure WellFormed (p : Problem) : Prop where
  /-- There is an object for every choice of values. -/
  length_objects : p.objects.length = 2 ^ p.vocabulary.size
  /-- Objects stand at the places of their numbers. -/
  id_eq : ∀ (i : Nat) (object : Object), p.objects[i]? = some object → object.id = i
  /-- The feasible objects increase, so none is repeated. -/
  pairwise_feasible : p.feasible.Pairwise (· < ·)
  /-- Feasible objects are objects. -/
  lt_of_feasible : ∀ id ∈ p.feasible, id < 2 ^ p.vocabulary.size
  /-- The rows of the penalty table stand beside the feasible objects. -/
  map_object_penalties : p.penalties.rows.map PenaltyRow.object = p.feasible
  /-- The rows of the degree table stand beside the feasible objects. -/
  map_object_degrees : p.degrees.rows.map DegreeRow.object = p.feasible
  /-- A row has one penalty for each rule: nothing, or the penalty of the rule. -/
  penalties : ∀ row ∈ p.penalties.rows,
    List.Forall₂ (fun rule n => n = 0 ∨ n = rule.penalty) p.rules.penalty row.penalties
  /-- A total is the exact sum of the penalties of its row. -/
  total_eq : ∀ row ∈ p.penalties.rows, row.total = row.penalties.sum
  /-- A total is a number of 64 bits. -/
  total_le : ∀ row ∈ p.penalties.rows, row.total ≤ 2 ^ 64 - 1
  /-- A row has one degree for each rule: the worst one, or the rank of a tier of the rule. -/
  degrees : ∀ row ∈ p.degrees.rows,
    List.Forall₂ (fun rule d => ∀ rank, d = .tier rank → 1 ≤ rank ∧ rank ≤ rule.tiers.length)
      p.rules.choice row.degrees
  /-- The columns of the penalty table are the penalty rules, in the order of their declaration. -/
  penalties_rules : p.penalties.rules = p.rules.penalty.map PenaltyRule.name
  /-- The columns of the degree table are the choice rules, in the order of their declaration. -/
  degrees_rules : p.degrees.rules = p.rules.choice.map ChoiceRule.name
  /-- No two columns of the penalty table have the same name. -/
  nodup_penalties_rules : p.penalties.rules.Nodup
  /-- No two columns of the degree table have the same name. -/
  nodup_degrees_rules : p.degrees.rules.Nodup

variable {σ : Type} {o : Oracle σ} {config : Config} {v : Vocabulary} {constraints : Formula}
  {penaltyRules : List PenaltyRule} {choiceRules : List ChoiceRule} {p : Problem} {s t : Session σ}

theorem cells_of_scores {id : Nat} {object : Object} {row : PenaltyRow}
    (h : row.Scores o penaltyRules id object) :
    List.Forall₂ (fun rule n => n = 0 ∨ n = rule.penalty) penaltyRules row.penalties := by
  refine h.penalties.imp fun rule n hn => ?_
  obtain ⟨answer, -, rfl⟩ := Oracle.exists_answer_of_charge hn
  cases answer with
  | true => exact .inl rfl
  | false => exact .inr rfl

namespace Evaluated

variable (h : p.Evaluated o config v constraints penaltyRules choiceRules)

include h

theorem wellFormed : p.WellFormed where
  length_objects := by
    rw [h.objects_eq, h.vocabulary_eq, Vocabulary.objects, List.length_map, List.length_range]
    rfl
  id_eq i object hobject := by
    rw [h.objects_eq, Vocabulary.getElem?_objects_iff] at hobject
    exact hobject.2
  pairwise_feasible := h.pairwise_feasible
  lt_of_feasible id hid := by
    rw [h.vocabulary_eq]
    exact h.lt_of_mem_feasible hid
  map_object_penalties := h.map_object_penalties
  map_object_degrees := h.map_object_degrees
  penalties row hrow := by
    obtain ⟨id, -, hscores⟩ := exists_mem_of_forall₂ h.rows_penalties hrow
    rw [h.rules_eq]
    exact cells_of_scores hscores
  total_eq row hrow := by
    obtain ⟨id, -, hscores⟩ := exists_mem_of_forall₂ h.rows_penalties hrow
    exact hscores.total_eq
  total_le row hrow := by
    obtain ⟨id, -, hscores⟩ := exists_mem_of_forall₂ h.rows_penalties hrow
    exact hscores.total_le
  degrees row hrow := by
    obtain ⟨id, -, hscores⟩ := exists_mem_of_forall₂ h.rows_degrees hrow
    rw [h.rules_eq]
    refine hscores.degrees.imp fun rule d hd rank hrank => ?_
    rw [hrank] at hd
    exact Oracle.rank_le_of_degree hd
  penalties_rules := by
    rw [h.rules_eq]
    exact (PenaltyTable.of_score h.penalties).1
  degrees_rules := by
    rw [h.rules_eq]
    exact (DegreeTable.of_score h.degrees).1
  nodup_penalties_rules := by
    rw [(PenaltyTable.of_score h.penalties).1]
    exact h.nodup_penalty
  nodup_degrees_rules := by
    rw [(DegreeTable.of_score h.degrees).1]
    exact h.nodup_choice

end Evaluated

/-- **Structure.** An evaluation that returns keeps the vocabulary and the rules that it was given
and returns a well-formed problem, whatever the oracle answers. -/
theorem wellFormed_of_returns
    (h : (evaluate o config v constraints penaltyRules choiceRules).Returns s p t) :
    p.vocabulary = v ∧ p.rules = ⟨penaltyRules, choiceRules⟩ ∧ p.WellFormed := by
  have heval := evaluated_of_returns h
  exact ⟨heval.vocabulary_eq, heval.rules_eq, heval.wellFormed⟩

/-- An oracle that lists models twice, out of order, too short and too long. -/
def unruly : Oracle (List (Except Oracle.Error Bool)) :=
  .scripted (.ok [[⟨1, true⟩], [⟨0, true⟩, ⟨1, false⟩], [⟨0, false⟩, ⟨1, false⟩], [],
    [⟨0, true⟩, ⟨1, false⟩], [⟨0, true⟩, ⟨1, true⟩, ⟨2, true⟩]])

/-- No answer depends on a formula. The largest total is reached and not exceeded. -/
theorem wellFormed_of_returns_unruly :
    ∃ p t,
      (evaluate unruly {} dinnerVocabulary (.ofClauses 2 []) steepRules meatRules).Returns
        { oracle := [true, false, false, false, false, false, false, true].map .ok } p t ∧
      p.feasible = [0, 2] ∧
      p.penalties.rows.map PenaltyRow.total = [penaltyLimit - 3, penaltyLimit] ∧
      p.degrees.rows.map DegreeRow.degrees = [[.unsatisfied], [.tier 2]] ∧ p.WellFormed := by
  obtain ⟨p, t, hreturns, hp⟩ : ∃ p t,
      (evaluate unruly {} dinnerVocabulary (.ofClauses 2 []) steepRules meatRules).Returns
        { oracle := [true, false, false, false, false, false, false, true].map .ok } p t ∧
      (p.feasible, p.penalties.rows.map PenaltyRow.total,
          p.degrees.rows.map DegreeRow.degrees) =
        ([0, 2], [penaltyLimit - 3, penaltyLimit], [[.unsatisfied], [.tier 2]]) :=
    Evaluation.exists_returns_of_map_eq (by decide)
  obtain ⟨hids, htotals, hdegrees⟩ := Prod.mk.inj hp |>.imp_right Prod.mk.inj
  exact ⟨p, t, hreturns, hids, htotals, hdegrees, (wellFormed_of_returns hreturns).2.2⟩

end PreferenceLogic.Problem
