import PreferenceLogic.Oracle.Basic
import PreferenceLogic.Proofs.Pointwise

/-!
# Computations that return

A computation with an oracle starts in a session, ends in a session, and either gives a value or
fails. This module says when it gives a value, step by step: a sequence of steps returns exactly
when every step does, each from the session that the step before it has left.

An oracle is free in how it finds its answers, whether it fails, and in which order it lists models.
It is correct if what it answers is true.

Definitions:
* `Evaluation.outcome`: what a computation gives, and the session it leaves.
* `Evaluation.Returns`, `Evaluation.Yields`: a computation gives a value, from a session or from
  some session.
* `Evaluation.Total`, `Evaluation.Gives`: a computation gives a value from every session, and it
  gives the same value or error from every session.
* `Oracle.Decides`: the answers about satisfiability are true.
* `Oracle.ListsModels`: the answers about models are exactly the models.
* `Oracle.AnswersModels`: a question for models is answered.
* `Oracle.Reliable`: every question is answered, and every answer is true.

Results:
* `Evaluation.returns_bind`: two steps return exactly when the first one does and then the second.
* `Evaluation.Returns.forall₂_of_mapM`: a computation for each element of a list returns one value
  for each of them.
* `Evaluation.Gives.related`: two computations that do not depend on the session are compared by
  what they give.
* `Evaluation.Gives.bind`, `Evaluation.Gives.mapM`, `Evaluation.Gives.filterM_ok`: steps that do not
  depend on the session make a computation that does not.
-/

namespace PreferenceLogic

namespace Evaluation

variable {σ ε ε' α β : Type}

/-- What a computation gives from a session, and the session it leaves. -/
def outcome (e : Evaluation σ ε α) (s : Session σ) : Except ε α × Session σ := e.run.run s

/-- From the session `s` a computation gives the value `a` and leaves the session `t`. -/
def Returns (e : Evaluation σ ε α) (s : Session σ) (a : α) (t : Session σ) : Prop :=
  e.outcome s = (.ok a, t)

/-- From some session a computation gives the value `a`. -/
def Yields (e : Evaluation σ ε α) (a : α) : Prop := ∃ s t, e.Returns s a t

variable {s t u : Session σ} {a b : α}

theorem Returns.yields {e : Evaluation σ ε α} (h : e.Returns s a t) : e.Yields a := ⟨s, t, h⟩

/-- A computation that is seen to give a value returns one. -/
theorem exists_returns_of_map_eq {e : Evaluation σ ε α} {f : α → β} {b : β}
    (h : (e.outcome s).1.map f = .ok b) : ∃ a t, e.Returns s a t ∧ f a = b := by
  obtain ⟨a, ha, rfl⟩ := map_eq_ok_iff.mp h
  exact ⟨a, (e.outcome s).2, Prod.ext ha rfl, rfl⟩

/-! ## Single steps -/

@[simp] theorem returns_pure : (pure a : Evaluation σ ε α).Returns s b t ↔ a = b ∧ s = t := by
  show ((.ok a, s) : Except ε α × Session σ) = (.ok b, t) ↔ _
  simp

@[simp] theorem returns_throw {err : ε} : (throw err : Evaluation σ ε α).Returns s a t ↔ False := by
  show ((.error err, s) : Except ε α × Session σ) = (.ok a, t) ↔ _
  simp

@[simp] theorem returns_note {r : Record} {x : Unit} :
    (note r : Evaluation σ ε Unit).Returns s x t ↔ { s with journal := s.journal.push r } = t := by
  show ((.ok (), { s with journal := s.journal.push r }) : Except ε Unit × Session σ) =
    (.ok x, t) ↔ _
  simp

@[simp] theorem returns_update {f : σ → σ} {x : Unit} :
    (update f : Evaluation σ ε Unit).Returns s x t ↔ { s with oracle := f s.oracle } = t := by
  show ((.ok (), { s with oracle := f s.oracle }) : Except ε Unit × Session σ) = (.ok x, t) ↔ _
  simp

@[simp] theorem returns_ofExcept {r : Except ε α} :
    (ofExcept r : Evaluation σ ε α).Returns s a t ↔ r = .ok a ∧ s = t := by
  show ((r, s) : Except ε α × Session σ) = (.ok a, t) ↔ _
  simp

/-- Errors are renamed at the end. -/
theorem outcome_adapt (e : Evaluation σ ε α) (f : ε → ε') (s : Session σ) :
    outcome (ε := ε') (e.adapt f) s = ((e.outcome s).1.mapError f, (e.outcome s).2) := rfl

/-- Errors are renamed only where there is one. -/
@[simp] theorem returns_adapt {e : Evaluation σ ε α} {f : ε → ε'} :
    Returns (ε := ε') (e.adapt f) s a t ↔ e.Returns s a t := by
  unfold Returns
  rw [outcome_adapt]
  rcases e.outcome s with ⟨err | value, u⟩ <;> simp [Except.mapError]

/-! ## Sequences of steps -/

/-- A result that is already known is handed on. -/
theorem ofExcept_ok_bind (a : α) (f : α → Evaluation σ ε β) : ofExcept (.ok a) >>= f = f a := rfl

/-- The second step begins where the first one ends, unless the first one fails. -/
theorem outcome_bind (e : Evaluation σ ε α) (f : α → Evaluation σ ε β) (s : Session σ) :
    (e >>= f).outcome s = match e.outcome s with
      | (.ok a, t) => (f a).outcome t
      | (.error err, t) => (.error err, t) := by
  unfold outcome
  rw [ExceptT.run_bind, StateT.run_bind]
  rcases e.run.run s with ⟨err | value, t⟩ <;> rfl

@[simp] theorem returns_bind {e : Evaluation σ ε α} {f : α → Evaluation σ ε β} {b : β} :
    (e >>= f).Returns s b u ↔ ∃ a t, e.Returns s a t ∧ (f a).Returns t b u := by
  unfold Returns
  rw [outcome_bind]
  rcases e.outcome s with ⟨err | value, t⟩
  · simp
  · simp only [Prod.mk.injEq, Except.ok.injEq]
    constructor
    · exact fun hf => ⟨value, t, ⟨rfl, rfl⟩, hf⟩
    · rintro ⟨_, _, ⟨rfl, rfl⟩, hf⟩
      exact hf

theorem Returns.forall₂_of_mapM {f : α → Evaluation σ ε β} {xs : List α} {ys : List β}
    (h : (xs.mapM f).Returns s ys t) : List.Forall₂ (fun x y => (f x).Yields y) xs ys := by
  induction xs generalizing s t ys with
  | nil =>
    rw [List.mapM_nil, returns_pure] at h
    obtain ⟨rfl, -⟩ := h
    exact .nil
  | cons x xs ih =>
    simp only [List.mapM_cons, returns_bind, returns_pure] at h
    obtain ⟨y, u, hy, zs, v, hzs, rfl, -⟩ := h
    exact .cons hy.yields (ih hzs)

/-! ## Every session -/

/-- From every session the computation gives some value. -/
def Total (e : Evaluation σ ε α) : Prop := ∀ s, ∃ a t, e.Returns s a t

/-- From every session the computation gives the same value, or the same error. -/
def Gives (e : Evaluation σ ε α) (r : Except ε α) : Prop := ∀ s, (e.outcome s).1 = r

theorem total_pure (a : α) : (pure a : Evaluation σ ε α).Total :=
  fun s => ⟨a, s, returns_pure.mpr ⟨rfl, rfl⟩⟩

theorem Total.bind {e : Evaluation σ ε α} {f : α → Evaluation σ ε β} (he : e.Total)
    (hf : ∀ a, (f a).Total) : (e >>= f).Total := by
  intro s
  obtain ⟨a, t, ha⟩ := he s
  obtain ⟨b, u, hb⟩ := hf a t
  exact ⟨b, u, returns_bind.mpr ⟨a, t, ha, hb⟩⟩

/-- A computation that cannot fail and has only one possible value gives this value. -/
theorem Total.gives {e : Evaluation σ ε α} (he : e.Total) (h : ∀ b, e.Yields b → b = a) :
    e.Gives (.ok a) := by
  intro s
  obtain ⟨b, t, hb⟩ := he s
  rw [show e.outcome s = (.ok b, t) from hb, h b hb.yields]

theorem Gives.eq_ok_of_returns {e : Evaluation σ ε α} {r : Except ε α} (h : e.Gives r)
    (hreturns : e.Returns s a t) : r = .ok a := by
  rw [← h s, show e.outcome s = (.ok a, t) from hreturns]

theorem Gives.exists_returns_iff {e : Evaluation σ ε α} {r : Except ε α} (h : e.Gives r)
    (s : Session σ) : (∃ a t, e.Returns s a t) ↔ ∃ a, r = .ok a := by
  constructor
  · rintro ⟨a, t, hreturns⟩
    exact ⟨a, h.eq_ok_of_returns hreturns⟩
  · rintro ⟨a, rfl⟩
    exact ⟨a, (e.outcome s).2, Prod.ext (h s) rfl⟩

/-- Two computations whose results are related return together, and what they return is related. -/
theorem Gives.related {σ' : Type} {e : Evaluation σ ε α} {e' : Evaluation σ' ε β}
    {r : Except ε α} {r' : Except ε β} (h : e.Gives r) (h' : e'.Gives r') {R : α → β → Prop}
    (hright : ∀ a, r = .ok a → ∃ b, r' = .ok b ∧ R a b) (hleft : ∀ b, r' = .ok b → ∃ a, r = .ok a)
    (s : Session σ) (s' : Session σ') :
    ((∃ a t, e.Returns s a t) ↔ ∃ b t', e'.Returns s' b t') ∧
      ∀ a t b t', e.Returns s a t → e'.Returns s' b t' → R a b := by
  constructor
  · rw [h.exists_returns_iff, h'.exists_returns_iff]
    constructor
    · rintro ⟨a, ha⟩
      obtain ⟨b, hb, -⟩ := hright a ha
      exact ⟨b, hb⟩
    · rintro ⟨b, hb⟩
      exact hleft b hb
  · intro a t b t' ha hb
    obtain ⟨c, hc, hR⟩ := hright a (h.eq_ok_of_returns ha)
    rw [h'.eq_ok_of_returns hb] at hc
    cases hc
    exact hR

theorem gives_ofExcept (r : Except ε α) : (ofExcept r : Evaluation σ ε α).Gives r := fun _ => rfl

theorem gives_pure (a : α) : (pure a : Evaluation σ ε α).Gives (.ok a) := fun _ => rfl

theorem gives_throw (err : ε) : (throw err : Evaluation σ ε α).Gives (.error err) := fun _ => rfl

theorem gives_note (r : Record) : (note r : Evaluation σ ε Unit).Gives (.ok ()) := fun _ => rfl

theorem Gives.adapt {e : Evaluation σ ε α} {r : Except ε α} (h : e.Gives r) (f : ε → ε') :
    Gives (ε := ε') (e.adapt f) (r.mapError f) := by
  intro s
  rw [outcome_adapt, h s]

theorem Gives.bind {e : Evaluation σ ε α} {f : α → Evaluation σ ε β} {r : Except ε α}
    {g : α → Except ε β} (he : e.Gives r) (hf : ∀ a, r = .ok a → (f a).Gives (g a)) :
    (e >>= f).Gives (r >>= g) := by
  intro s
  have hresult := he s
  rw [outcome_bind]
  generalize e.outcome s = outcome at hresult ⊢
  obtain ⟨result, t⟩ := outcome
  subst hresult
  cases result with
  | error err => rfl
  | ok value => exact hf value rfl t

theorem Gives.ok_bind {e : Evaluation σ ε α} {f : α → Evaluation σ ε β} {r : Except ε β}
    (he : e.Gives (.ok a)) (hf : (f a).Gives r) : (e >>= f).Gives r :=
  he.bind (g := fun _ => r) fun _ h => Except.ok.inj h ▸ hf

theorem Gives.error_bind {e : Evaluation σ ε α} {err : ε} (he : e.Gives (.error err))
    (f : α → Evaluation σ ε β) : (e >>= f).Gives (.error err) :=
  he.bind (g := fun _ => .error err) fun _ h => nomatch h

/-- A record in the journal changes no result. -/
theorem Gives.note_bind {r : Record} {f : Unit → Evaluation σ ε β} {b : Except ε β}
    (h : (f ()).Gives b) : (note r >>= f).Gives b :=
  (gives_note r).ok_bind h

theorem Gives.mapM {f : α → Evaluation σ ε β} {g : α → Except ε β} {xs : List α}
    (h : ∀ x ∈ xs, (f x).Gives (g x)) : (xs.mapM f).Gives (xs.mapM g) := by
  induction xs with
  | nil => exact gives_pure []
  | cons x xs ih =>
    rw [List.mapM_cons, List.mapM_cons]
    refine (h x List.mem_cons_self).bind fun y _ => ?_
    refine (ih fun z hz => h z (List.mem_cons_of_mem x hz)).bind fun ys _ => ?_
    exact gives_pure (y :: ys)

theorem Gives.mapM_ok {f : α → Evaluation σ ε β} {g : α → β} {xs : List α}
    (h : ∀ x ∈ xs, (f x).Gives (.ok (g x))) : (xs.mapM f).Gives (.ok (xs.map g)) := by
  have hmapM := Gives.mapM h
  rwa [show (xs.mapM fun x => (.ok (g x) : Except ε β)) = .ok (xs.map g) from List.mapM_pure]
    at hmapM

theorem Gives.filterM_ok {f : α → Evaluation σ ε Bool} {p : α → Bool} {xs : List α}
    (h : ∀ x ∈ xs, (f x).Gives (.ok (p x))) : (xs.filterM f).Gives (.ok (xs.filter p)) := by
  -- elements that are kept are collected in reverse
  have hcollected : ∀ kept : List α,
      (List.filterAuxM f xs kept).Gives (.ok ((xs.filter p).reverse ++ kept)) := by
    induction xs with
    | nil => exact fun kept => gives_pure kept
    | cons x xs ih =>
      intro kept
      have hrest := ih fun y hy => h y (List.mem_cons_of_mem x hy)
      rw [List.filterAuxM]
      refine (h x List.mem_cons_self).ok_bind ?_
      cases hx : p x with
      | true => simpa [List.filter_cons_of_pos hx] using hrest (x :: kept)
      | false => simpa [hx] using hrest kept
  have hreverse : ((xs.filter p).reverse ++ []).reverse = xs.filter p := by simp
  rw [List.filterM, ← hreverse]
  exact (hcollected []).ok_bind (gives_pure _)

end Evaluation

/-! ## Correct oracles -/

namespace Oracle

variable {σ : Type}

/-- A formula that is said to be satisfiable is, and one that is said not to be is not. -/
def Decides (o : Oracle σ) : Prop :=
  ∀ f answer, (o.satisfiable f).Yields answer → (answer = true ↔ f.Satisfiable)

/-- The models that are listed are exactly the models of the formula, in any order. -/
def ListsModels (o : Oracle σ) : Prop :=
  ∀ f models, (o.models f).Yields models → ∀ model, model ∈ models ↔ f.IsModel model

/-- A question for models never fails. -/
def AnswersModels (o : Oracle σ) : Prop := ∀ f s, ∃ models t, (o.models f).Returns s models t

/-- An oracle that is correct and never fails. -/
structure Reliable (o : Oracle σ) : Prop where
  decides : o.Decides
  listsModels : o.ListsModels
  /-- A question about satisfiability never fails. -/
  total_satisfiable : ∀ f, (o.satisfiable f).Total
  answersModels : o.AnswersModels

end Oracle

end PreferenceLogic
