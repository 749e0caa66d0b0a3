import Mathlib.Data.List.Infix
import PreferenceLogic.Proofs.Formula.Meaning
import PreferenceLogic.Proofs.Oracle.Recorded
import PreferenceLogic.Proofs.Score.Questions

/-!
# Totals and the limit

Where the oracle answers all questions, whatever its answers are, scoring in penalty logic gives
exact totals. It fails for the first object whose exact total exceeds the limit and for no other
reason. The questions are numbered object by object and rule by rule, so the answers determine all
totals.

Definitions:
* `PenaltyRule.judged`: rules with the answers about an object.
* `PenaltyTable.sumAt`: the exact total of the object at a place.
* `PenaltyTable.FirstOverflow`: the first object whose total exceeds the limit.
* `PenaltyTable.Answered`: the answers of a run in which all questions are answered.
* `PenaltyTable.Totals`: how the exchanges and the result of scoring fit together.

Results:
* `PenaltyTable.firstOverflow_congr`: the order of the rules does not matter.
* `PenaltyTable.totals_of_score`: scoring with answers gives exact totals or the first overflow.
-/

namespace PreferenceLogic

open Oracle

/-! ## Judgements -/

namespace PenaltyRule

variable {rules rules' : List PenaltyRule} {answers answers' : Answers} {n n' : Nat}

/-- The rules, each with the answer whether an object satisfies it, where the question with the
number `n` is the one for the first rule. -/
def judged (rules : List PenaltyRule) (answers : Answers) (n : Nat) : List (PenaltyRule × Bool) :=
  rules.mapIdx fun i rule => (rule, answers.satisfiable (n + i))

theorem charges_eq_map (rules : List PenaltyRule) (answers : Answers) (n : Nat) :
    charges rules answers n =
      (judged rules answers n).map fun judgement =>
        if judgement.2 then 0 else judgement.1.penalty := by
  rw [charges, judged, List.mapIdx_eq_zipIdx_map, List.mapIdx_eq_zipIdx_map, List.map_map]
  rfl

/-- The same judgements in another order charge the same total. -/
theorem sum_charges_congr (h : (judged rules answers n).Perm (judged rules' answers' n')) :
    (charges rules answers n).sum = (charges rules' answers' n').sum := by
  rw [charges_eq_map, charges_eq_map]
  exact (h.map _).sum_nat

end PenaltyRule

namespace PenaltyTable

variable {rules rules' : List PenaltyRule} {answers answers' : Answers} {objects : List Object}
  {ids : List Nat}

/-! ## The first overflow -/

/-- The exact total of the object at a place, where the first question is the one for the first rule
about the first object. -/
def sumAt (rules : List PenaltyRule) (answers : Answers) (place : Nat) : Nat :=
  (PenaltyRule.charges rules answers (place * rules.length)).sum

/-- The first of some objects whose exact total is no number of 64 bits has the given number. -/
def FirstOverflow (rules : List PenaltyRule) (answers : Answers) (ids : List Nat) (id : Nat) :
    Prop :=
  ∃ place, ids[place]? = some id ∧ 2 ^ 64 - 1 < sumAt rules answers place ∧
    ∀ before < place, sumAt rules answers before ≤ 2 ^ 64 - 1

theorem overflows_iff {place : Nat} :
    PenaltyRow.Overflows rules answers (0 + place * rules.length) ↔
      2 ^ 64 - 1 < sumAt rules answers place := by
  rw [Nat.zero_add]
  exact Iff.rfl

/-- The order of the rules does not matter if each of them has the same answer about each object. -/
theorem firstOverflow_congr {id : Nat}
    (h : ∀ place < ids.length,
      (PenaltyRule.judged rules answers (place * rules.length)).Perm
        (PenaltyRule.judged rules' answers' (place * rules'.length))) :
    FirstOverflow rules answers ids id ↔ FirstOverflow rules' answers' ids id := by
  have hsum : ∀ place < ids.length,
      sumAt rules answers place = sumAt rules' answers' place := fun place hplace =>
    PenaltyRule.sum_charges_congr (h place hplace)
  refine exists_congr fun place => and_congr_right fun hid => ?_
  have hplace : place < ids.length := (List.getElem?_eq_some_iff.mp hid).1
  rw [hsum place hplace]
  refine and_congr_right fun _ => forall₂_congr fun before hbefore => ?_
  rw [hsum before (Nat.lt_trans hbefore hplace)]

/-! ## Scoring -/

variable {σ : Type} (o : Oracle σ)

/-- The exchanges with the oracle while the objects with some numbers are scored. -/
def exchanges (rules : List PenaltyRule) (objects : List Object) (ids : List Nat)
    (s : Session σ) : List Exchange :=
  ((score o.recorded rules objects ids).outcome s.recording).2.oracle.exchanges.toList

/-- All questions have an answer while the objects with some numbers are scored, and these are the
answers. -/
structure Answered (rules : List PenaltyRule) (objects : List Object) (ids : List Nat)
    (s : Session σ) (answers : Answers) : Prop where
  error?_eq : ∀ e ∈ exchanges o rules objects ids s, e.error? = none
  agreeFrom : answers.AgreeFrom 0 (exchanges o rules objects ids s)

/-- How the exchanges of scoring and its result fit together, where the answers are known. -/
structure Totals (rules : List PenaltyRule) (objects : List Object) (ids : List Nat)
    (answers : Answers) (exchanges : List Exchange)
    (result : Except Problem.Error PenaltyTable) : Prop where
  /-- Questions are asked object by object and rule by rule. -/
  queries_isPrefix : exchanges.map Exchange.query <+: questions rules objects ids
  /-- The first object whose total exceeds the limit is the error. -/
  overflow_iff : ∀ id, result = .error (.penaltyOverflow id) ↔ FirstOverflow rules answers ids id
  /-- Otherwise the table has a row for each object with its exact total. -/
  otherwise : (∀ id, ¬ FirstOverflow rules answers ids id) →
    result = .ok (charged rules answers 0 ids)

/-- What the plan says fits together. -/
theorem totals_of_plan {es : List Exchange} {result : Except Problem.Error PenaltyTable}
    (hqueries : es.map Exchange.query = (plan rules objects ids).questions answers 0)
    (hresult : result = (plan rules objects ids).result answers 0) :
    Totals rules objects ids answers es result := by
  have hfirst : ∀ id, FirstOverflow rules answers ids id →
      es.map Exchange.query <+: questions rules objects ids ∧
        result = .error (.penaltyOverflow id) := by
    rintro id ⟨place, hid, hover, hbefore⟩
    obtain ⟨hasked, herror⟩ := plan_of_overflows (n := 0) objects hid (overflows_iff.mpr hover)
      fun before hlt => mt overflows_iff.mp (Nat.not_lt.mpr (hbefore before hlt))
    rw [hqueries, hasked, hresult, herror]
    exact ⟨(List.take_prefix _ _).flatMap _, rfl⟩
  rcases overflows_cases rules answers 0 ids with hnone | ⟨place, id, hid, hover, hbefore⟩
  · have hwithin : ∀ id, ¬ FirstOverflow rules answers ids id := by
      rintro id ⟨place, hid, hover, -⟩
      exact hnone place (List.getElem?_eq_some_iff.mp hid).1 (overflows_iff.mpr hover)
    obtain ⟨hasked, htable⟩ := plan_of_not_overflows objects hnone
    rw [hasked] at hqueries
    rw [htable] at hresult
    subst hresult
    exact {
      queries_isPrefix := hqueries ▸ List.prefix_rfl
      overflow_iff := fun id => iff_of_false (fun h => nomatch h) (hwithin id)
      otherwise := fun _ => rfl }
  · have hoverflow : FirstOverflow rules answers ids id :=
      ⟨place, hid, overflows_iff.mp hover, fun before hlt =>
        Nat.not_lt.mp (mt overflows_iff.mpr (hbefore before hlt))⟩
    obtain ⟨hasked, herror⟩ := hfirst id hoverflow
    refine ⟨hasked, fun other => ⟨fun h => ?_, fun h => (hfirst other h).2⟩,
      fun hwithin => absurd hoverflow (hwithin id)⟩
    rw [herror] at h
    cases h
    exact hoverflow

theorem Answered.totals {s : Session σ} (h : Answered o rules objects ids s answers) :
    Totals rules objects ids answers (exchanges o rules objects ids s)
      ((score o rules objects ids).outcome s).1 := by
  obtain ⟨es, hes, hends⟩ := executes_score o rules objects ids s.recording
  have hexchanges : exchanges o rules objects ids s = es := hes
  obtain ⟨hanswered, hagree⟩ := h
  rw [hexchanges] at hanswered hagree ⊢
  obtain ⟨hqueries, hresult⟩ := (hends answers 0 hagree).of_answered hanswered
  have hrecorded := records_score o rules objects ids s.recording
  refine totals_of_plan hqueries ?_
  rw [← hresult]
  exact congrArg Prod.fst hrecorded

/-- **Totals.** Where an oracle answers all questions, whatever it answers, the result of scoring is
the first object whose exact total exceeds the limit, and if there is none, the exact totals.
Another run, with another oracle and the rules in another order, has the same object for its error
if each rule has the same answer about each object. -/
theorem totals_of_score (rules : List PenaltyRule) (objects : List Object) (ids : List Nat)
    (s : Session σ) (hanswered : ∀ e ∈ exchanges o rules objects ids s, e.error? = none) :
    (∃ answers, Answered o rules objects ids s answers) ∧
      ∀ answers, Answered o rules objects ids s answers →
        Totals rules objects ids answers (exchanges o rules objects ids s)
            ((score o rules objects ids).outcome s).1 ∧
          ∀ {σ' : Type} (o' : Oracle σ') (rules' : List PenaltyRule) (s' : Session σ')
            (answers' : Answers), Answered o' rules' objects ids s' answers' →
            (∀ place < ids.length,
              (PenaltyRule.judged rules answers (place * rules.length)).Perm
                (PenaltyRule.judged rules' answers' (place * rules'.length))) →
            ∀ id, ((score o rules objects ids).outcome s).1 = .error (.penaltyOverflow id) ↔
              ((score o' rules' objects ids).outcome s').1 = .error (.penaltyOverflow id) := by
  obtain ⟨answers, hagree⟩ := Answers.exists_agreeFrom 0 (exchanges o rules objects ids s)
  refine ⟨⟨answers, hanswered, hagree⟩, fun answers hrun => ⟨hrun.totals, ?_⟩⟩
  intro σ' o' rules' s' answers' hrun' hjudged id
  rw [hrun.totals.overflow_iff, hrun'.totals.overflow_iff]
  exact firstOverflow_congr hjudged

/-- Two rules that make the largest total, and one more. -/
def brimmingRules : List PenaltyRule :=
  [⟨"big".toList, .ofClauses 2 [[⟨0, true⟩]], 1⟩,
    ⟨"red".toList, .ofClauses 2 [[⟨1, true⟩]], penaltyLimit - 1⟩,
    ⟨"blue".toList, .ofClauses 2 [[⟨1, false⟩]], 1⟩]

/-- The first gift owes the largest total, which is accepted. The second one owes one more and is
the error, whatever the others owe. -/
theorem totals_of_score_gifts :
    let o := Oracle.scripted (.ok [])
    let objects := Formula.gifts.objects
    let first : Session _ := { oracle := [false, false, true].map .ok }
    let both : Session _ := { oracle := [false, false, true, false, false, false].map .ok }
    (∃ answers, Answered o brimmingRules objects [0] first answers ∧
      sumAt brimmingRules answers 0 = 2 ^ 64 - 1) ∧
      ∃ answers, Answered o brimmingRules objects [0, 1, 2, 3] both answers ∧
        FirstOverflow brimmingRules answers [0, 1, 2, 3] 1 := by
  intro o objects first both
  constructor
  · obtain ⟨⟨answers, hrun⟩, hall⟩ := totals_of_score o brimmingRules objects [0] first (by decide)
    obtain ⟨table, htable, htotals⟩ : ∃ table,
        ((score o brimmingRules objects [0]).outcome first).1 = .ok table ∧
          table.rows.map PenaltyRow.total = [2 ^ 64 - 1] := map_eq_ok_iff.mp (by decide)
    have hwithin : ∀ id, ¬ FirstOverflow brimmingRules answers [0] id := by
      intro id hover
      have herror := ((hall answers hrun).1.overflow_iff id).mpr hover
      rw [htable] at herror
      cases herror
    have hcharged := (hall answers hrun).1.otherwise hwithin
    rw [htable] at hcharged
    cases hcharged
    exact ⟨answers, hrun, List.head_eq_of_cons_eq htotals⟩
  · obtain ⟨⟨answers, hrun⟩, hall⟩ := totals_of_score o brimmingRules objects [0, 1, 2, 3] both
      (by decide)
    have herror : ((score o brimmingRules objects [0, 1, 2, 3]).outcome both).1 =
        .error (.penaltyOverflow 1) := by decide
    exact ⟨answers, hrun, ((hall answers hrun).1.overflow_iff 1).mp herror⟩

end PenaltyTable

end PreferenceLogic
