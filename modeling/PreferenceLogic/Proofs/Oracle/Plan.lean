import PreferenceLogic.Proofs.Evaluation

/-!
# Plans

What a computation asks an oracle next depends on nothing but the answers it had so far. A plan
says, for any answers, which questions are asked and what results.

Definitions:
* `Answers`: answers to the questions of a run, by the numbers of the questions.
* `Agenda`, `Agenda.inTurn`: what is asked where the answers are known, and an agenda for each
  element of a list.
* `Plan`: an agenda and what results.
* `Plan.bind`, `Plan.mapM`: one plan after another, and a plan for each element of a list.

Results:
* `Answers.agreeFrom_append`, `Answers.exists_agreeFrom`: answers that agree with exchanges, part by
  part, and that there are some.
* `Plan.mapM_of_ok`, `Plan.mapM_of_error`: plans of the same length, one after another, ask
  everything if none of them fails, and nothing after the first one that fails.
-/

namespace PreferenceLogic

open Oracle

/-! ## Answers -/

/-- Answers to the questions of a run, by the numbers of the questions. -/
structure Answers where
  /-- The answers to the questions that ask whether a formula is satisfiable. -/
  satisfiable : Nat → Bool
  /-- The answers to the questions that ask for models. -/
  models : Nat → List (List Literal)

/-- The formula that a question is about. -/
def Oracle.Query.formula : Query → Formula
  | satisfiable f => f
  | models f => f

namespace Oracle.Exchange

/-- The error of an exchange whose question had no answer. -/
def error? : Exchange → Option Error
  | satisfiable _ (.error err) => some err
  | models _ (.error err) => some err
  | _ => none

/-- The answer of an exchange, if there is one, is the answer with the given number. -/
def Agrees (answers : Answers) (number : Nat) : Exchange → Prop
  | satisfiable _ (.ok answer) => answers.satisfiable number = answer
  | models _ (.ok answer) => answers.models number = answer
  | _ => True

end Oracle.Exchange

/-- The answers in some exchanges are those with the numbers from `first` on. -/
def Answers.AgreeFrom (answers : Answers) (first : Nat) (es : List Exchange) : Prop :=
  ∀ (i : Nat) (e : Exchange), es[i]? = some e → e.Agrees answers (first + i)

theorem Answers.agreeFrom_append {answers : Answers} {n : Nat} {es fs : List Exchange} :
    answers.AgreeFrom n (es ++ fs) ↔
      answers.AgreeFrom n es ∧ answers.AgreeFrom (n + es.length) fs := by
  constructor
  · intro h
    constructor
    · intro i e he
      exact h i e (List.getElem?_append_left (List.getElem?_eq_some_iff.mp he).1 ▸ he)
    · intro i e he
      rw [Nat.add_assoc]
      refine h (es.length + i) e ?_
      rw [List.getElem?_append_right (Nat.le_add_right _ _), Nat.add_sub_cancel_left, he]
  · rintro ⟨hes, hfs⟩ i e he
    by_cases hi : i < es.length
    · rw [List.getElem?_append_left hi] at he
      exact hes i e he
    · rw [List.getElem?_append_right (by omega)] at he
      have hagrees := hfs (i - es.length) e he
      rwa [show n + es.length + (i - es.length) = n + i by omega] at hagrees

/-- There are answers that agree with any exchanges. -/
theorem Answers.exists_agreeFrom (n : Nat) (es : List Exchange) :
    ∃ answers : Answers, answers.AgreeFrom n es := by
  refine ⟨⟨fun i => match es[i - n]? with
      | some (.satisfiable _ (.ok answer)) => answer
      | _ => false, fun i => match es[i - n]? with
      | some (.models _ (.ok answer)) => answer
      | _ => []⟩, fun i e he => ?_⟩
  match e with
  | .satisfiable _ (.ok answer) => simp [Exchange.Agrees, he]
  | .models _ (.ok answer) => simp [Exchange.Agrees, he]
  | .satisfiable _ (.error _) => trivial
  | .models _ (.error _) => trivial

/-! ## Plans -/

variable {σ ε ε' α β : Type}

/-- What is asked, where the answers and the number of the first question are known. -/
abbrev Agenda := Answers → Nat → List Query

/-- An agenda for each element of a list, one after another. -/
def Agenda.inTurn (agenda : α → Agenda) : List α → Agenda
  | [], _, _ => []
  | x :: xs, answers, n =>
    agenda x answers n ++ inTurn agenda xs answers (n + (agenda x answers n).length)

theorem Agenda.exists_of_mem_inTurn {agenda : α → Agenda} {xs : List α} {answers : Answers}
    {n : Nat} {q : Query} (hq : q ∈ inTurn agenda xs answers n) :
    ∃ x ∈ xs, ∃ m, q ∈ agenda x answers m := by
  induction xs generalizing n with
  | nil => cases hq
  | cons x xs ih =>
    rcases List.mem_append.mp hq with hq | hq
    · exact ⟨x, List.mem_cons_self, n, hq⟩
    · obtain ⟨y, hy, m, hm⟩ := ih hq
      exact ⟨y, List.mem_cons_of_mem x hy, m, hm⟩

/-- What is asked and what results, where the answers and the number of the first question are
known. -/
structure Plan (ε α : Type) where
  questions : Agenda
  result : Answers → Nat → Except ε α

namespace Plan

/-- Nothing is asked, and the result is known. -/
def done (result : Except ε α) : Plan ε α where
  questions _ _ := []
  result _ _ := result

/-- One question is asked, and a value is made of its answer. -/
def ask (question : Query) (value : Answers → Nat → α) : Plan ε α where
  questions _ _ := [question]
  result answers n := .ok (value answers n)

/-- The errors are renamed. -/
def adapt (P : Plan ε α) (f : ε → ε') : Plan ε' α where
  questions := P.questions
  result answers n := (P.result answers n).mapError f

/-- One plan after another. Questions are numbered through, and the second plan is not begun where
the first one fails. -/
def bind (P : Plan ε α) (Q : α → Plan ε β) : Plan ε β where
  questions answers n := P.questions answers n ++
    match P.result answers n with
    | .ok x => (Q x).questions answers (n + (P.questions answers n).length)
    | .error _ => []
  result answers n :=
    match P.result answers n with
    | .ok x => (Q x).result answers (n + (P.questions answers n).length)
    | .error err => .error err

/-- A plan for each element of a list, one after another. -/
def mapM (P : α → Plan ε β) : List α → Plan ε (List β)
  | [] => done (.ok [])
  | x :: xs => (P x).bind fun y => (mapM P xs).bind fun ys => done (.ok (y :: ys))

variable {P : Plan ε α} {Q : α → Plan ε β} {answers : Answers} {n : Nat} {x : α} {err : ε}

@[simp] theorem questions_done (result : Except ε α) :
    (done result).questions answers n = [] := rfl

@[simp] theorem result_done (result : Except ε α) : (done result).result answers n = result := rfl

@[simp] theorem questions_ask (question : Query) (value : Answers → Nat → α) :
    (ask question value : Plan ε α).questions answers n = [question] := rfl

@[simp] theorem result_ask (question : Query) (value : Answers → Nat → α) :
    (ask question value : Plan ε α).result answers n = .ok (value answers n) := rfl

@[simp] theorem done_ok_bind (x : α) (Q : α → Plan ε β) : (done (.ok x)).bind Q = Q x := rfl

@[simp] theorem done_error_bind (err : ε) (Q : α → Plan ε β) :
    (done (.error err)).bind Q = done (.error err) := rfl

theorem questions_bind_of_ok (h : P.result answers n = .ok x) :
    (P.bind Q).questions answers n =
      P.questions answers n ++ (Q x).questions answers (n + (P.questions answers n).length) := by
  simp only [bind, h]

theorem result_bind_of_ok (h : P.result answers n = .ok x) :
    (P.bind Q).result answers n =
      (Q x).result answers (n + (P.questions answers n).length) := by
  simp only [bind, h]

theorem questions_bind_of_error (h : P.result answers n = .error err) :
    (P.bind Q).questions answers n = P.questions answers n := by
  simp only [bind, h, List.append_nil]

theorem result_bind_of_error (h : P.result answers n = .error err) :
    (P.bind Q).result answers n = .error err := by
  simp only [bind, h]

section

variable {asked : α → List Query} {width : Nat}
  (hasked : ∀ x answers n, (Q x).questions answers n = asked x)
  (hwidth : ∀ x, (asked x).length = width)

include hasked hwidth

/-- Steps that are as long as each other and all give a value ask all their questions, and the
values are the result. -/
theorem mapM_of_ok {xs : List α} {g : Nat → α → β}
    (h : ∀ i x, xs[i]? = some x → (Q x).result answers (n + i * width) = .ok (g i x)) :
    (mapM Q xs).questions answers n = xs.flatMap asked ∧
      (mapM Q xs).result answers n = .ok (xs.mapIdx g) := by
  induction xs generalizing n g with
  | nil => exact ⟨rfl, rfl⟩
  | cons x xs ih =>
    have hx := h 0 x rfl
    rw [Nat.zero_mul, Nat.add_zero] at hx
    obtain ⟨hquestions, hxs⟩ := ih (n := n + width) (g := fun i => g (i + 1))
      fun i z hz => by
        rw [show n + width + i * width = n + (i + 1) * width by rw [Nat.succ_mul]; omega]
        exact h (i + 1) z hz
    have hlength : n + ((Q x).questions answers n).length = n + width := by
      rw [hasked, hwidth]
    rw [mapM]
    constructor
    · rw [questions_bind_of_ok hx, hlength, questions_bind_of_ok hxs, hquestions, hasked,
        questions_done, List.append_nil, List.flatMap_cons]
    · rw [result_bind_of_ok hx, hlength, result_bind_of_ok hxs, result_done, List.mapIdx_cons]

/-- The first step that fails is the last one to ask questions, and its error is the result. -/
theorem mapM_of_error {xs : List α} {i : Nat} {x : α} (hx : xs[i]? = some x)
    (herr : (Q x).result answers (n + i * width) = .error err)
    (hbefore : ∀ j < i, ∀ y, xs[j]? = some y →
      ∃ z, (Q y).result answers (n + j * width) = .ok z) :
    (mapM Q xs).questions answers n = (xs.take (i + 1)).flatMap asked ∧
      (mapM Q xs).result answers n = .error err := by
  induction xs generalizing n i with
  | nil => cases hx
  | cons y ys ih =>
    rw [mapM, List.take_succ_cons, List.flatMap_cons]
    cases i with
    | zero =>
      cases hx
      rw [Nat.zero_mul, Nat.add_zero] at herr
      rw [questions_bind_of_error herr, result_bind_of_error herr, hasked]
      exact ⟨(List.append_nil _).symm, rfl⟩
    | succ i =>
      obtain ⟨z, hz⟩ := hbefore 0 (Nat.succ_pos i) y rfl
      rw [Nat.zero_mul, Nat.add_zero] at hz
      have hnext : ∀ j, n + width + j * width = n + (j + 1) * width := by
        intro j
        rw [Nat.succ_mul]
        omega
      obtain ⟨hquestions, hresult⟩ := ih (n := n + width) hx (by rw [hnext, herr])
        fun j hj w hw => by
          rw [hnext]
          exact hbefore (j + 1) (Nat.succ_lt_succ hj) w hw
      have hlength : n + ((Q y).questions answers n).length = n + width := by
        rw [hasked, hwidth]
      rw [questions_bind_of_ok hz, result_bind_of_ok hz, hlength,
        questions_bind_of_error hresult, result_bind_of_error hresult, hquestions, hasked]
      exact ⟨rfl, rfl⟩

end

end Plan

end PreferenceLogic
