import PreferenceLogic.Problem.Basic
import PreferenceLogic.Proofs.Evaluation

/-!
# Recorded evaluations

An oracle that keeps a record of its exchanges answers as it does without the record. So whatever is
computed with it, the results, the errors, the journal and the state of the oracle are the same, and
a record says what is asked where none is kept.

Definitions:
* `Session.unrecorded`, `Session.recording`: a session without the record, and with an empty one.
* `Evaluation.Records`: a computation does the same as another one and keeps a record besides.

Results:
* `Evaluation.Records.bind`, `Evaluation.Records.mapM`: sequences of recorded steps are recorded.
* `Problem.records_evaluate`: the evaluation of a problem is the same with a record.
-/

namespace PreferenceLogic

variable {σ ε ε' α β : Type}

/-- A session without the record. -/
def Session.unrecorded (s : Session (Oracle.Recorded σ)) : Session σ where
  oracle := s.oracle.oracle
  journal := s.journal

/-- A session with an empty record. -/
def Session.recording (s : Session σ) : Session (Oracle.Recorded σ) where
  oracle := { oracle := s.oracle }
  journal := s.journal

namespace Evaluation

/-- A computation does the same as another one and keeps a record besides. -/
def Records (e : Evaluation (Oracle.Recorded σ) ε α) (e' : Evaluation σ ε α) : Prop :=
  ∀ s, e'.outcome s.unrecorded = ((e.outcome s).1, (e.outcome s).2.unrecorded)

/-! ## Steps -/

theorem records_pure (a : α) :
    Records (pure a : Evaluation (Oracle.Recorded σ) ε α) (pure a) := fun _ => rfl

theorem records_throw (err : ε) :
    Records (throw err : Evaluation (Oracle.Recorded σ) ε α) (throw err) := fun _ => rfl

theorem records_note (r : Record) :
    Records (note r : Evaluation (Oracle.Recorded σ) ε Unit) (note r) := fun _ => rfl

theorem records_ofExcept (r : Except ε α) :
    Records (ofExcept r : Evaluation (Oracle.Recorded σ) ε α) (ofExcept r) := fun _ => rfl

variable {e : Evaluation (Oracle.Recorded σ) ε α} {e' : Evaluation σ ε α}

theorem Records.adapt (h : e.Records e') (f : ε → ε') :
    Records (ε := ε') (e.adapt f) (e'.adapt f) := by
  intro s
  rw [outcome_adapt, outcome_adapt, h s]

theorem Records.bind (h : e.Records e') {f : α → Evaluation (Oracle.Recorded σ) ε β}
    {f' : α → Evaluation σ ε β} (hf : ∀ a, (f a).Records (f' a)) :
    (e >>= f).Records (e' >>= f') := by
  intro s
  rw [outcome_bind, outcome_bind, h s]
  rcases e.outcome s with ⟨err | a, t⟩
  · rfl
  · exact hf a t

theorem Records.mapM {f : α → Evaluation (Oracle.Recorded σ) ε β} {f' : α → Evaluation σ ε β}
    (hf : ∀ x, (f x).Records (f' x)) (xs : List α) : (xs.mapM f).Records (xs.mapM f') := by
  induction xs with
  | nil => exact records_pure []
  | cons x xs ih =>
    rw [List.mapM_cons, List.mapM_cons]
    exact (hf x).bind fun y => ih.bind fun ys => records_pure (y :: ys)

end Evaluation

/-! ## Scores -/

open Evaluation

namespace Oracle

variable (o : Oracle σ)

theorem records_satisfiable (f : Formula) :
    (o.recorded.satisfiable f).Records (o.satisfiable f) := fun _ => rfl

theorem records_models (f : Formula) : (o.recorded.models f).Records (o.models f) := fun _ => rfl

theorem records_feasible (f : Formula) (objects : List Object) :
    (o.recorded.feasible f objects).Records (o.feasible f objects) :=
  (o.records_models f).bind fun _ => (records_note _).bind fun _ => records_pure _

theorem records_charge (rule : PenaltyRule) (object : Object) :
    (o.recorded.charge rule object).Records (o.charge rule object) := by
  refine (o.records_satisfiable _).bind fun answer => ?_
  cases answer with
  | true => exact records_pure _
  | false => exact records_pure _

theorem records_firstTier (object : Object) (rank : Nat) (tiers : List Formula) :
    (o.recorded.firstTier object rank tiers).Records (o.firstTier object rank tiers) := by
  induction tiers generalizing rank with
  | nil => exact records_pure _
  | cons tier rest ih =>
    refine (o.records_satisfiable _).bind fun answer => ?_
    cases answer with
    | true => exact records_pure _
    | false => exact ih (rank + 1)

theorem records_degree (rule : ChoiceRule) (object : Object) :
    (o.recorded.degree rule object).Records (o.degree rule object) := by
  unfold degree
  cases rule.condition with
  | none => exact o.records_firstTier object 1 rule.tiers
  | some condition =>
    refine (o.records_satisfiable _).bind fun answer => ?_
    cases answer with
    | true => exact o.records_firstTier object 1 rule.tiers
    | false => exact records_pure _

end Oracle

variable (o : Oracle σ)

theorem PenaltyRow.records_score (rules : List PenaltyRule) (id : Nat) (object : Object) :
    (PenaltyRow.score o.recorded rules id object).Records (PenaltyRow.score o rules id object) := by
  refine (Records.mapM (fun rule => (o.records_charge rule object).adapt _) rules).bind
    fun penalties => ?_
  cases total? penalties with
  | none => exact records_throw _
  | some total => exact (records_note _).bind fun _ => records_pure _

theorem PenaltyTable.records_score (rules : List PenaltyRule) (objects : List Object)
    (ids : List Nat) :
    (PenaltyTable.score o.recorded rules objects ids).Records
      (PenaltyTable.score o rules objects ids) :=
  (Records.mapM (fun id => PenaltyRow.records_score o rules id _) ids).bind fun _ => records_pure _

theorem DegreeRow.records_score (rules : List ChoiceRule) (id : Nat) (object : Object) :
    (DegreeRow.score o.recorded rules id object).Records (DegreeRow.score o rules id object) :=
  (Records.mapM (fun rule => o.records_degree rule object) rules).bind fun _ =>
    (records_note _).bind fun _ => records_pure _

theorem DegreeTable.records_score (rules : List ChoiceRule) (objects : List Object)
    (ids : List Nat) :
    (DegreeTable.score o.recorded rules objects ids).Records
      (DegreeTable.score o rules objects ids) :=
  (Records.mapM (fun id => DegreeRow.records_score o rules id _) ids).bind fun _ => records_pure _

/-! ## Problems -/

theorem Problem.records_evaluate (config : Config) (v : Vocabulary) (constraints : Formula)
    (penaltyRules : List PenaltyRule) (choiceRules : List ChoiceRule) :
    (evaluate o.recorded config v constraints penaltyRules choiceRules).Records
      (evaluate o config v constraints penaltyRules choiceRules) := by
  unfold evaluate
  split
  · exact fun _ => rfl
  · exact (records_ofExcept _).bind fun rules => (records_note _).bind fun _ =>
      ((o.records_feasible _ _).adapt _).bind fun feasible =>
      (PenaltyTable.records_score o rules.penalty _ feasible).bind fun _ =>
      ((DegreeTable.records_score o rules.choice _ feasible).adapt _).bind fun _ =>
      (records_note _).bind fun _ => records_pure _

end PreferenceLogic
