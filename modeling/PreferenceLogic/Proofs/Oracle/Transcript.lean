import PreferenceLogic.Proofs.Oracle.Plan

/-!
# Transcripts

A computation that executes a plan asks the questions of the plan in their order until a question
has no answer. That question is the last one, and its error is the result.

Definitions:
* `Oracle.Ends`: how some exchanges end, compared with the questions that are planned.
* `Oracle.Executes`: a computation executes a plan, whatever the oracle answers.
* `Oracle.Asks`: a computation has an agenda and gives a value unless a question has no answer.

Results:
* `Oracle.executes_satisfiable`, `Oracle.executes_models`: a single question executes its plan.
* `Oracle.Executes.bind`, `Oracle.Executes.mapM`: sequences of steps execute sequences of plans.
* `Oracle.Asks.bind`, `Oracle.Asks.mapM`: likewise for agendas.
-/

namespace PreferenceLogic

variable {σ ε ε' α β : Type}

/-! ## Executing a plan -/

namespace Oracle

/-- How some questions end that should give a result: all of them are answered, or all but the last
one of those that are asked. -/
inductive Ends (fail : Error → ε) (questions : List Query) (result : Except ε α) :
    List Exchange → Except ε α → Prop where
  | answered {es : List Exchange} (hanswered : ∀ e ∈ es, e.error? = none)
      (hquestions : es.map Exchange.query = questions) : Ends fail questions result es result
  | failed {es : List Exchange} {last : Exchange} {err : Error}
      (hanswered : ∀ e ∈ es, e.error? = none) (hlast : last.error? = some err)
      (hquestions : (es ++ [last]).map Exchange.query <+: questions) :
      Ends fail questions result (es ++ [last]) (.error (fail err))

section

variable {fail : Error → ε} {questions : List Query} {planned result : Except ε α}
  {es : List Exchange} (h : Ends fail questions planned es result)

include h

/-- What is asked is asked in the planned order. -/
theorem Ends.queries_isPrefix : es.map Exchange.query <+: questions := by
  cases h with
  | answered _ hquestions =>
    exact hquestions ▸ List.prefix_rfl
  | failed _ _ hquestions => exact hquestions

/-- Where every question is answered, everything is asked and the result is as planned. -/
theorem Ends.of_answered (hes : ∀ e ∈ es, e.error? = none) :
    es.map Exchange.query = questions ∧ result = planned := by
  cases h with
  | answered _ hquestions => exact ⟨hquestions, rfl⟩
  | failed _ hlast _ =>
    rw [hes _ (List.mem_append_right _ List.mem_cons_self)] at hlast
    cases hlast

/-- A question without an answer is the last one, and its error is the result. -/
theorem Ends.of_error {i : Nat} {e : Exchange} {err : Error} (he : es[i]? = some e)
    (herr : e.error? = some err) : i + 1 = es.length ∧ result = .error (fail err) := by
  cases h with
  | answered hanswered _ =>
    rw [hanswered e (List.mem_of_getElem? he)] at herr
    cases herr
  | @failed es last err' hanswered hlast _ =>
    by_cases hi : i < es.length
    · rw [List.getElem?_append_left hi] at he
      rw [hanswered e (List.mem_of_getElem? he)] at herr
      cases herr
    · have hlt := (List.getElem?_eq_some_iff.mp he).1
      rw [List.length_append, List.length_singleton] at hlt ⊢
      obtain rfl : i = es.length := by omega
      rw [List.getElem?_concat_length] at he
      cases he
      rw [hlast] at herr
      cases herr
      exact ⟨rfl, rfl⟩

/-- Something is asked where a question is planned. -/
theorem Ends.ne_nil (hne : questions ≠ []) : es ≠ [] := by
  rintro rfl
  exact hne (h.of_answered fun _ he => nomatch he).1.symm

/-- An error is the planned one, or that of a question without an answer. -/
theorem Ends.cases_error {err : ε} (hresult : result = .error err) :
    planned = .error err ∨ ∃ e ∈ es, ∃ cause, e.error? = some cause ∧ err = fail cause := by
  cases h with
  | answered _ _ => exact .inl hresult
  | @failed es last cause _ hlast _ =>
    exact .inr ⟨last, List.mem_append_right _ List.mem_cons_self, cause, hlast,
      (Except.error.inj hresult).symm⟩

end

/-- A computation executes a plan: its exchanges are added to the record, and for all answers that
agree with them they end as the plan says. -/
def Executes (fail : Error → ε) (e : Evaluation (Recorded σ) ε α) (P : Plan ε α) : Prop :=
  ∀ s, ∃ es, (e.outcome s).2.oracle.exchanges.toList = s.oracle.exchanges.toList ++ es ∧
    ∀ answers n, answers.AgreeFrom n es →
      Ends fail (P.questions answers n) (P.result answers n) es (e.outcome s).1

variable {fail : Error → ε}

/-- Only what a plan asks and results in matters. -/
theorem Executes.congr {e : Evaluation (Recorded σ) ε α} {P Q : Plan ε α} (h : Executes fail e P)
    (hPQ : ∀ answers n, P.questions answers n = Q.questions answers n ∧
      P.result answers n = Q.result answers n) : Executes fail e Q := by
  intro s
  obtain ⟨es, hes, hends⟩ := h s
  refine ⟨es, hes, fun answers n hagree => ?_⟩
  rw [← (hPQ answers n).1, ← (hPQ answers n).2]
  exact hends answers n hagree

/-! ## Single steps -/

theorem ends_nil {result : Except ε α} : Ends fail [] result [] result :=
  .answered (fun _ he => by cases he) rfl

theorem executes_pure (a : α) :
    Executes fail (pure a : Evaluation (Recorded σ) ε α) (.done (.ok a)) :=
  fun _ => ⟨[], (List.append_nil _).symm, fun _ _ _ => ends_nil⟩

theorem executes_throw (err : ε) :
    Executes fail (throw err : Evaluation (Recorded σ) ε α) (.done (.error err)) :=
  fun _ => ⟨[], (List.append_nil _).symm, fun _ _ _ => ends_nil⟩

theorem executes_note (r : Record) :
    Executes fail (Evaluation.note r : Evaluation (Recorded σ) ε Unit) (.done (.ok ())) :=
  fun _ => ⟨[], (List.append_nil _).symm, fun _ _ _ => ends_nil⟩

/-- A question that is asked and recorded executes the plan of this one question. -/
theorem executes_ask {question : Query} {value : Answers → Nat → α}
    (exchange : Except Error α → Exchange) (hquery : ∀ r, (exchange r).query = question)
    (herror : ∀ err, (exchange (.error err)).error? = some err)
    (hok : ∀ a, (exchange (.ok a)).error? = none)
    (hagrees : ∀ answers n a, (exchange (.ok a)).Agrees answers n → value answers n = a)
    (answer : Evaluation σ Error α) :
    Executes id (Recorded.ask exchange answer) (.ask question value) := by
  intro s
  refine ⟨[exchange ((Recorded.ask exchange answer).outcome s).1], Array.toList_push,
    fun answers n hagree => ?_⟩
  cases hresult : ((Recorded.ask exchange answer).outcome s).1 with
  | error err =>
    have hasked : ([] ++ [exchange (.error err)]).map Exchange.query <+: [question] :=
      ⟨[], by rw [List.append_nil, List.nil_append, List.map_singleton, hquery]⟩
    exact .failed (fun _ he => by cases he) (herror err) hasked
  | ok a =>
    rw [hresult] at hagree
    have hvalue : value answers n = a := hagrees answers n a (hagree 0 _ rfl)
    subst hvalue
    refine .answered (fun e he => ?_) ?_
    · rw [List.mem_singleton.mp he]
      exact hok _
    · rw [List.map_singleton, hquery]
      rfl

theorem executes_satisfiable (o : Oracle σ) (f : Formula) :
    Executes id (o.recorded.satisfiable f) (.ask (.satisfiable f) Answers.satisfiable) :=
  executes_ask (.satisfiable f) (fun _ => rfl) (fun _ => rfl) (fun _ => rfl) (fun _ _ _ h => h) _

theorem executes_models (o : Oracle σ) (f : Formula) :
    Executes id (o.recorded.models f) (.ask (.models f) Answers.models) :=
  executes_ask (.models f) (fun _ => rfl) (fun _ => rfl) (fun _ => rfl) (fun _ _ _ h => h) _

/-! ## Sequences of steps -/

theorem Ends.adapt {questions : List Query} {result r : Except ε α} {es : List Exchange}
    (h : Ends fail questions result es r) (f : ε → ε') :
    Ends (f ∘ fail) questions (result.mapError f) es (r.mapError f) := by
  cases h with
  | answered hanswered hquestions => exact .answered hanswered hquestions
  | failed hanswered hlast hquestions => exact .failed hanswered hlast hquestions

theorem Executes.adapt {e : Evaluation (Recorded σ) ε α} {P : Plan ε α} (h : Executes fail e P)
    (f : ε → ε') : Executes (f ∘ fail) (ε := ε') (e.adapt f) (P.adapt f) := by
  intro s
  obtain ⟨es, hes, hends⟩ := h s
  exact ⟨es, hes, fun answers n hagree => (hends answers n hagree).adapt f⟩

section

variable {P : Plan ε α} {Q : α → Plan ε β} {answers : Answers} {n : Nat}

/-- Where the first step fails, the second one is not begun. -/
theorem Ends.bind_error {es : List Exchange} {err : ε}
    (h : Ends fail (P.questions answers n) (P.result answers n) es (.error err)) :
    Ends fail ((P.bind Q).questions answers n) ((P.bind Q).result answers n) es
      (.error err : Except ε β) := by
  generalize hr : (.error err : Except ε α) = r at h
  cases h with
  | answered hanswered hquestions =>
    rw [← Plan.result_bind_of_error (Q := Q) hr.symm]
    refine .answered hanswered ?_
    rw [hquestions, Plan.questions_bind_of_error hr.symm]
  | failed hanswered hlast hquestions =>
    cases hr
    exact .failed hanswered hlast (hquestions.trans (List.prefix_append _ _))

/-- Where the first step is done, the second one has the questions after it. -/
theorem Ends.bind_ok {es fs : List Exchange} {x : α} {r : Except ε β}
    (h : Ends fail (P.questions answers n) (P.result answers n) es (.ok x))
    (h' : Ends fail ((Q x).questions answers (n + es.length))
      ((Q x).result answers (n + es.length)) fs r) :
    Ends fail ((P.bind Q).questions answers n) ((P.bind Q).result answers n) (es ++ fs) r := by
  generalize hx : (.ok x : Except ε α) = rx at h
  cases h with
  | failed => cases hx
  | answered hanswered hquestions =>
    rw [Plan.questions_bind_of_ok hx.symm, Plan.result_bind_of_ok hx.symm, ← hquestions,
      List.length_map]
    have hall : ∀ gs : List Exchange, (∀ e ∈ gs, e.error? = none) →
        ∀ e ∈ es ++ gs, e.error? = none := fun gs hgs e he =>
      (List.mem_append.mp he).elim (hanswered e) (hgs e)
    cases h' with
    | answered hanswered' hquestions' =>
      refine .answered (hall _ hanswered') ?_
      rw [List.map_append, hquestions']
    | failed hanswered' hlast hquestions' =>
      rw [← List.append_assoc]
      refine .failed (hall _ hanswered') hlast ?_
      rw [List.append_assoc, List.map_append]
      exact (List.prefix_append_right_inj _).mpr hquestions'

end

theorem Executes.bind {e : Evaluation (Recorded σ) ε α} {P : Plan ε α}
    {f : α → Evaluation (Recorded σ) ε β} {Q : α → Plan ε β} (he : Executes fail e P)
    (hf : ∀ x, Executes fail (f x) (Q x)) : Executes fail (e >>= f) (P.bind Q) := by
  intro s
  rw [Evaluation.outcome_bind]
  obtain ⟨es, hes, hends⟩ := he s
  rcases hout : e.outcome s with ⟨err | x, t⟩
  · rw [hout] at hes hends
    exact ⟨es, hes, fun answers n hagree => (hends answers n hagree).bind_error⟩
  · rw [hout] at hes hends
    obtain ⟨fs, hfs, hends'⟩ := hf x t
    refine ⟨es ++ fs, ?_, fun answers n hagree => ?_⟩
    · rw [hfs, hes, List.append_assoc]
    · obtain ⟨hfirst, hsecond⟩ := Answers.agreeFrom_append.mp hagree
      exact (hends answers n hfirst).bind_ok (hends' answers _ hsecond)

/-- Nothing is asked where a record is written to the journal. -/
theorem Executes.note_bind {f : Unit → Evaluation (Recorded σ) ε β} {P : Plan ε β}
    (h : Executes fail (f ()) P) (r : Record) : Executes fail (Evaluation.note r >>= f) P :=
  ((executes_note r).bind fun _ => h).congr fun _ _ => ⟨rfl, rfl⟩

theorem Executes.mapM {f : α → Evaluation (Recorded σ) ε β} {P : α → Plan ε β}
    (hf : ∀ x, Executes fail (f x) (P x)) (xs : List α) :
    Executes fail (xs.mapM f) (Plan.mapM P xs) := by
  induction xs with
  | nil => exact executes_pure []
  | cons x xs ih =>
    rw [List.mapM_cons]
    exact (hf x).bind fun y => ih.bind fun ys => executes_pure (y :: ys)

/-- Where nothing is planned nothing is asked. -/
theorem Executes.outcome_of_done {e : Evaluation (Recorded σ) ε α} {result : Except ε α}
    (h : Executes fail e (.done result)) (s : Session (Recorded σ)) :
    (e.outcome s).1 = result ∧
      (e.outcome s).2.oracle.exchanges = s.oracle.exchanges := by
  obtain ⟨es, hes, hends⟩ := h s
  obtain ⟨answers, hagree⟩ := Answers.exists_agreeFrom 0 es
  have hdone := hends answers 0 hagree
  obtain rfl : es = [] := List.map_eq_nil_iff.mp (List.prefix_nil.mp hdone.queries_isPrefix)
  refine ⟨(hdone.of_answered fun _ he => nomatch he).2, Array.toList_inj.mp ?_⟩
  rw [hes, List.append_nil]

/-! ## Computations that only fail where an answer is missing -/

/-- A computation asks the questions of an agenda and then gives a value, unless a question has no
answer. -/
def Asks (fail : Error → ε) (e : Evaluation (Recorded σ) ε α) (agenda : Agenda) : Prop :=
  ∃ P : Plan ε α, Executes fail e P ∧ P.questions = agenda ∧
    ∀ answers n, ∃ x, P.result answers n = .ok x

theorem asks_pure (a : α) :
    Asks fail (pure a : Evaluation (Recorded σ) ε α) fun _ _ => [] :=
  ⟨_, executes_pure a, rfl, fun _ _ => ⟨a, rfl⟩⟩

theorem asks_note (r : Record) :
    Asks fail (Evaluation.note r : Evaluation (Recorded σ) ε Unit) fun _ _ => [] :=
  ⟨_, executes_note r, rfl, fun _ _ => ⟨(), rfl⟩⟩

theorem Asks.adapt {e : Evaluation (Recorded σ) ε α} {agenda : Agenda} (h : Asks fail e agenda)
    (f : ε → ε') : Asks (f ∘ fail) (ε := ε') (e.adapt f) agenda := by
  obtain ⟨P, hexecutes, rfl, hresult⟩ := h
  refine ⟨_, hexecutes.adapt f, rfl, fun answers n => ?_⟩
  obtain ⟨x, hx⟩ := hresult answers n
  exact ⟨x, congrArg (Except.mapError f) hx⟩

/-- What follows a computation may ask more, but not depending on its value. -/
theorem Asks.bind {e : Evaluation (Recorded σ) ε α} {f : α → Evaluation (Recorded σ) ε β}
    {first second : Agenda} (he : Asks fail e first) (hf : ∀ x, Asks fail (f x) second) :
    Asks fail (e >>= f) fun answers n =>
      first answers n ++ second answers (n + (first answers n).length) := by
  obtain ⟨P, hP, rfl, hresult⟩ := he
  choose Q hQ hquestions hresult' using hf
  refine ⟨P.bind Q, hP.bind hQ, ?_, fun answers n => ?_⟩
  · funext answers n
    obtain ⟨x, hx⟩ := hresult answers n
    rw [Plan.questions_bind_of_ok hx, hquestions]
  · obtain ⟨x, hx⟩ := hresult answers n
    rw [Plan.result_bind_of_ok hx]
    exact hresult' x _ _

/-- What follows a computation may ask nothing more. -/
theorem Asks.andThen {e : Evaluation (Recorded σ) ε α} {f : α → Evaluation (Recorded σ) ε β}
    {agenda : Agenda} (he : Asks fail e agenda) (hf : ∀ x, Asks fail (f x) fun _ _ => []) :
    Asks fail (e >>= f) agenda := by
  have h := he.bind hf
  simp only [List.append_nil] at h
  exact h

/-- What follows a question about satisfiability may ask different things after different
answers. -/
theorem asks_satisfiable_bind (o : Oracle σ) (f : Formula)
    {g : Bool → Evaluation (Recorded σ) Error α} {agenda : Bool → Agenda}
    (h : ∀ answer, Asks id (g answer) (agenda answer)) :
    Asks id (o.recorded.satisfiable f >>= g) fun answers n =>
      .satisfiable f :: agenda (answers.satisfiable n) answers (n + 1) := by
  choose Q hQ hquestions hresult using h
  refine ⟨_, (executes_satisfiable o f).bind hQ, ?_, fun answers n => hresult _ answers (n + 1)⟩
  funext answers n
  rw [← hquestions]
  rfl

theorem Asks.mapM {f : α → Evaluation (Recorded σ) ε β} {agenda : α → Agenda}
    (hf : ∀ x, Asks fail (f x) (agenda x)) (xs : List α) :
    Asks fail (xs.mapM f) (Agenda.inTurn agenda xs) := by
  induction xs with
  | nil => exact asks_pure []
  | cons x xs ih =>
    rw [List.mapM_cons]
    exact (hf x).bind fun y => ih.andThen fun ys => asks_pure (y :: ys)

end Oracle

end PreferenceLogic
