import PreferenceLogic.Problem.Basic
import PreferenceLogic.Proofs.Rule
import PreferenceLogic.Proofs.Score.Penalty

/-!
# Scores read off the labels

What an object pays for a rule, and the degree that it attains, can be read off the text of the rule
and the labels of the object, and so can the outcome of a comparison. With an oracle that is correct
and never fails, asking question after question finds just these scores, from every session.

Definitions:
* `PenaltyRule.due`, `ChoiceRule.attained`: the scores of labels for one rule.
* `PenaltyRow.declared`, `DegreeRow.declared`: the rows of an object.
* `Rulebook.prefer`: the outcome of comparing labels in a logic.

Results:
* `ChoiceRule.attained_eq_tier_iff`: the degree that labels attain is the rank that they attain.
* `Oracle.Reliable.gives_penaltyTable`: the table of penalties has the declared rows, and the first
  object that owes too much is the error.
* `Oracle.Reliable.gives_degreeTable`: the table of degrees has the declared rows.
-/

namespace PreferenceLogic

/-! ## Scores of labels -/

/-- What labels pay for a rule: nothing if the formula of the rule holds of them as it is
written. -/
def PenaltyRule.due (labels : List Text) (rule : PenaltyRule) : Nat :=
  if Formula.Holds labels rule.name then 0 else rule.penalty

namespace ChoiceRule

/-- The degree that labels attain for the rule with a given text: the rank of the first tier that
holds of them, if the condition does. -/
def attained (labels : List Text) (t : Text) : Degree :=
  let (choice, condition?) := cutCondition t
  if ∀ condition ∈ condition?, Formula.Holds labels condition then
    let texts := Text.split betterThan choice
    match texts.findIdx? fun tier => decide (Formula.Holds labels tier) with
    | some i => .tier (i + 1)
    | none => .unsatisfied
  else .unsatisfied

theorem attained_eq_tier_iff {labels : List Text} {t : Text} {rank : Nat} :
    attained labels t = .tier rank ↔ Attains labels t rank := by
  obtain ⟨texts, text?, htells⟩ := exists_tells t
  obtain ⟨htexts, htext?⟩ := tells_iff.mp htells
  have hfirst : IsFirst (Formula.Holds labels) texts rank ↔
      ∃ i, rank = i + 1 ∧
        texts.findIdx? (fun tier => decide (Formula.Holds labels tier)) = some i := by
    rw [← isFirst_iff_findIdx?]
    simp only [decide_eq_true_eq]
  rw [htells.attains_iff, hfirst, attained]
  dsimp only
  rw [htexts, htext?]
  split
  · rename_i hcondition
    cases texts.findIdx? fun tier => decide (Formula.Holds labels tier) with
    | none => simp
    | some i => simpa [eq_comm] using fun _ => hcondition
  · rename_i hcondition
    exact iff_of_false (by simp) fun h => hcondition h.1

theorem ReadFrom.degreeOf_eq {v : Vocabulary} {t : Text} {rule : ChoiceRule}
    (h : ReadFrom v t rule) {object : Object} (hobject : object ∈ v.objects) :
    rule.degreeOf (fun f => f.eval object.valuation) = attained object.labels t := by
  have hrank : ∀ rank, rule.degreeOf (fun f => f.eval object.valuation) = .tier rank ↔
      attained object.labels t = .tier rank := fun rank => by
    rw [attained_eq_tier_iff, h.attains_iff hobject]
  cases hdegree : attained object.labels t with
  | tier rank => exact (hrank rank).mpr hdegree
  | unsatisfied =>
    rw [Degree.eq_unsatisfied_iff]
    intro rank heq
    rw [hrank, hdegree] at heq
    cases heq

end ChoiceRule

/-! ## Rows and comparisons -/

/-- The row of an object for some penalty rules. -/
def PenaltyRow.declared (rules : List PenaltyRule) (object : Object) : PenaltyRow where
  object := object.id
  penalties := rules.map (PenaltyRule.due object.labels)
  total := (rules.map (PenaltyRule.due object.labels)).sum

/-- The row of an object for some choice rules. -/
def DegreeRow.declared (rules : List ChoiceRule) (object : Object) : DegreeRow where
  object := object.id
  degrees := rules.map fun rule => ChoiceRule.attained object.labels rule.name

/-- The comparison of two objects by their labels. -/
def Rulebook.prefer (rules : Rulebook) (logic : Logic) (x y : Object) : Comparison :=
  match logic with
  | .penalty => .ofTotals (PenaltyRow.declared rules.penalty x).total
      (PenaltyRow.declared rules.penalty y).total
  | .qualitative => .ofDegrees (DegreeRow.declared rules.choice x).degrees
      (DegreeRow.declared rules.choice y).degrees

/-! ## Finding the scores -/

namespace Oracle

variable {σ : Type} {o : Oracle σ} {v : Vocabulary} {object : Object}

theorem total_firstTier (h : ∀ f, (o.satisfiable f).Total) (object : Object) (rank : Nat)
    (tiers : List Formula) : (o.firstTier object rank tiers).Total := by
  induction tiers generalizing rank with
  | nil => exact Evaluation.total_pure _
  | cons tier rest ih =>
    rw [firstTier]
    refine (h _).bind fun answer => ?_
    cases answer with
    | true => exact Evaluation.total_pure _
    | false => exact ih (rank + 1)

namespace Reliable

variable (ho : o.Reliable)

include ho

theorem gives_charge (hobject : object ∈ v.objects) {rule : PenaltyRule}
    (hrule : Formula.parse v rule.name = .ok rule.formula) :
    (o.charge rule object).Gives (.ok (rule.due object.labels)) := by
  have htotal : (o.charge rule object).Total := by
    rw [charge]
    refine (ho.total_satisfiable _).bind fun answer => ?_
    cases answer with
    | true => exact Evaluation.total_pure _
    | false => exact Evaluation.total_pure _
  refine htotal.gives fun n hn => ?_
  rw [charge_eq ho.decides hobject (Formula.reach_le_of_parse hrule) hn, PenaltyRule.due]
  simp only [Formula.holds_iff_eval hobject hrule]

theorem gives_degree (hobject : object ∈ v.objects) {rule : ChoiceRule}
    (hrule : rule.ReadFrom v rule.name) :
    (o.degree rule object).Gives (.ok (ChoiceRule.attained object.labels rule.name)) := by
  have htiers := total_firstTier ho.total_satisfiable object 1 rule.tiers
  have htotal : (o.degree rule object).Total := by
    unfold degree
    cases rule.condition with
    | none => exact htiers
    | some condition =>
      refine (ho.total_satisfiable _).bind fun answer => ?_
      cases answer with
      | true => exact htiers
      | false => exact Evaluation.total_pure _
  refine htotal.gives fun d hd => ?_
  rw [degree_eq ho.decides hobject hrule.reach_le_of_mem_tiers hrule.reach_le_of_mem_condition hd,
    hrule.degreeOf_eq hobject]

theorem gives_penaltyRow (hobject : object ∈ v.objects) {rules : List PenaltyRule}
    (hrules : ∀ rule ∈ rules, Formula.parse v rule.name = .ok rule.formula) :
    (PenaltyRow.score o rules object.id object).Gives
      (if penaltyLimit < (PenaltyRow.declared rules object).total then
        .error (.penaltyOverflow object.id)
      else .ok (PenaltyRow.declared rules object)) := by
  have hpenalties := Evaluation.Gives.mapM_ok fun rule hrule =>
    (ho.gives_charge hobject (hrules rule hrule)).adapt Problem.Error.oracle
  refine hpenalties.ok_bind ?_
  cases htotal : total? (rules.map (PenaltyRule.due object.labels)) with
  | none =>
    have hover : penaltyLimit < (PenaltyRow.declared rules object).total :=
      total?_eq_none_iff.mp htotal
    rw [if_pos hover]
    exact Evaluation.gives_throw _
  | some total =>
    obtain ⟨rfl, hle⟩ := total?_eq_some_iff.mp htotal
    have hwithin : ¬ penaltyLimit < (PenaltyRow.declared rules object).total := Nat.not_lt.mpr hle
    rw [if_neg hwithin]
    exact (Evaluation.gives_pure (PenaltyRow.declared rules object)).note_bind

/-- The first object that owes more than the limit is the error of the table. -/
theorem gives_penaltyTable {found : List Object} (hfound : found ⊆ v.objects)
    {rules : List PenaltyRule}
    (hrules : ∀ rule ∈ rules, Formula.parse v rule.name = .ok rule.formula) :
    (PenaltyTable.score o rules v.objects (found.map Object.id)).Gives
      (match found.find? fun x => penaltyLimit < (PenaltyRow.declared rules x).total with
        | some x => .error (.penaltyOverflow x.id)
        | none => .ok ⟨rules.map PenaltyRule.name, found.map (PenaltyRow.declared rules)⟩) := by
  have hrow : ∀ x ∈ found, (PenaltyRow.score o rules x.id v.objects[x.id]!).Gives
      (if penaltyLimit < (PenaltyRow.declared rules x).total then .error (.penaltyOverflow x.id)
        else .ok (PenaltyRow.declared rules x)) := by
    intro x hx
    rw [Vocabulary.getElem!_objects_id (hfound hx)]
    exact ho.gives_penaltyRow (hfound hx) hrules
  have hrows := Evaluation.Gives.mapM hrow
  have hrefused := mapM_eq_of_refused
    (fun x : Object => decide (penaltyLimit < (PenaltyRow.declared rules x).total))
    (fun x => Problem.Error.penaltyOverflow x.id) (PenaltyRow.declared rules) found
  simp only [decide_eq_true_eq] at hrefused
  rw [hrefused] at hrows
  simp only [PenaltyTable.score, List.getElem!_toArray, List.mapM_map, Function.comp_def]
  cases hfind : found.find? fun x => penaltyLimit < (PenaltyRow.declared rules x).total with
  | some x =>
    rw [hfind] at hrows
    exact hrows.error_bind _
  | none =>
    rw [hfind] at hrows
    exact hrows.ok_bind (Evaluation.gives_pure _)

theorem gives_degreeTable {found : List Object} (hfound : found ⊆ v.objects)
    {rules : List ChoiceRule} (hrules : ∀ rule ∈ rules, rule.ReadFrom v rule.name) :
    (DegreeTable.score o rules v.objects (found.map Object.id)).Gives
      (.ok ⟨rules.map ChoiceRule.name, found.map (DegreeRow.declared rules)⟩) := by
  have hrow : ∀ x ∈ found, (DegreeRow.score o rules x.id v.objects[x.id]!).Gives
      (.ok (DegreeRow.declared rules x)) := by
    intro x hx
    rw [Vocabulary.getElem!_objects_id (hfound hx)]
    have hdegrees := Evaluation.Gives.mapM_ok fun rule hrule =>
      ho.gives_degree (hfound hx) (hrules rule hrule)
    exact hdegrees.ok_bind (Evaluation.gives_pure (DegreeRow.declared rules x)).note_bind
  simp only [DegreeTable.score, List.getElem!_toArray, List.mapM_map, Function.comp_def]
  exact (Evaluation.Gives.mapM_ok hrow).ok_bind (Evaluation.gives_pure _)

end Reliable

end Oracle

end PreferenceLogic
