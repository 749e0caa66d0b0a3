import PreferenceLogic.Degree
import PreferenceLogic.Proofs.Evaluation
import PreferenceLogic.Proofs.Object.Pinning
import PreferenceLogic.Proofs.Pointwise

/-!
# Degrees

The degree of an object for a rule is found by a sequence of questions that ends with the first
tier that the object satisfies. Given which formulas hold, the degree is determined.

Definitions:
* `IsFirst`: the rank, counted from one, of the first element of a list with a property.
* `ChoiceRule.degreeOf`: the degree where it is known which formulas hold.

Results:
* `ChoiceRule.degreeOf_eq_tier_iff`: the degree is the rank of the first tier that holds, if the
  condition does, and the worst degree otherwise.
* `Oracle.degree_eq`: a correct oracle finds the degree that the object has.
* `Oracle.rank_le_of_degree`: whatever the oracle answers, a rank is that of a tier.
* `DegreeTable.of_score`, `DegreeTable.length_degrees`: a table that is scored has one row for each
  number of an object, in their order, and one degree for each rule.
-/

namespace PreferenceLogic

/-! ## Ranks -/

section

variable {α β : Type}

/-- `rank` is the position, counted from one, of the first element with the property. -/
def IsFirst (P : α → Prop) (l : List α) (rank : Nat) : Prop :=
  ∃ i x, rank = i + 1 ∧ l[i]? = some x ∧ P x ∧ ∀ j < i, ∀ y, l[j]? = some y → ¬ P y

theorem isFirst_iff_findIdx? {P : α → Bool} {l : List α} {rank : Nat} :
    IsFirst (fun x => P x = true) l rank ↔ ∃ i, rank = i + 1 ∧ l.findIdx? P = some i := by
  unfold IsFirst
  refine exists_congr fun i => ?_
  rw [List.findIdx?_eq_some_iff_getElem]
  constructor
  · rintro ⟨x, rfl, hx, hP, hbefore⟩
    obtain ⟨hi, rfl⟩ := List.getElem?_eq_some_iff.mp hx
    refine ⟨rfl, hi, hP, fun j hj => ?_⟩
    exact hbefore j hj _ (List.getElem?_eq_getElem (by omega))
  · rintro ⟨rfl, hi, hP, hbefore⟩
    refine ⟨_, rfl, List.getElem?_eq_getElem hi, hP, fun j hj y hy => ?_⟩
    obtain ⟨hj', rfl⟩ := List.getElem?_eq_some_iff.mp hy
    exact hbefore j hj

theorem exists_isFirst_iff {P : α → Prop} [DecidablePred P] {l : List α} :
    (∃ rank, IsFirst P l rank) ↔ ∃ x ∈ l, P x := by
  constructor
  · rintro ⟨_, i, x, -, hx, hP, -⟩
    exact ⟨x, List.mem_of_getElem? hx, hP⟩
  · rintro ⟨x, hx, hP⟩
    obtain ⟨i, hi⟩ : ∃ i, l.findIdx? (fun x => decide (P x)) = some i :=
      Option.isSome_iff_exists.mp (List.findIdx?_isSome.trans (List.any_eq_true.mpr
        ⟨x, hx, decide_eq_true hP⟩))
    refine ⟨i + 1, ?_⟩
    have hfirst := (isFirst_iff_findIdx? (P := fun x => decide (P x))).mpr ⟨i, rfl, hi⟩
    simpa only [decide_eq_true_eq] using hfirst

theorem IsFirst.of_forall₂ {P : α → Prop} {Q : β → Prop} {xs : List α} {ys : List β}
    (h : List.Forall₂ (fun x y => P x ↔ Q y) xs ys) {rank : Nat} (hfirst : IsFirst P xs rank) :
    IsFirst Q ys rank := by
  obtain ⟨i, x, hrank, hx, hP, hbefore⟩ := hfirst
  obtain ⟨y, hy, hiff⟩ := exists_getElem?_of_forall₂ h hx
  refine ⟨i, y, hrank, hy, hiff.mp hP, fun j hj z hz hQ => ?_⟩
  obtain ⟨w, hw, hiff'⟩ := exists_getElem?_of_forall₂ h.flip hz
  exact hbefore j hj w hw (hiff'.mpr hQ)

theorem isFirst_iff_of_forall₂ {P : α → Prop} {Q : β → Prop} {xs : List α} {ys : List β}
    (h : List.Forall₂ (fun x y => P x ↔ Q y) xs ys) {rank : Nat} :
    IsFirst P xs rank ↔ IsFirst Q ys rank := by
  have hflip : List.Forall₂ (fun y x => Q y ↔ P x) ys xs := h.flip.imp fun _ _ hiff => hiff.symm
  exact ⟨IsFirst.of_forall₂ h, IsFirst.of_forall₂ hflip⟩

end

/-! ## The degree of a rule -/

namespace ChoiceRule

/-- The degree for a rule where it is known which formulas hold. -/
def degreeOf (holds : Formula → Bool) (rule : ChoiceRule) : Degree :=
  if rule.condition.all holds then
    match rule.tiers.findIdx? holds with
    | some i => .tier (i + 1)
    | none => .unsatisfied
  else .unsatisfied

theorem degreeOf_eq_tier_iff {holds : Formula → Bool} {rule : ChoiceRule} {rank : Nat} :
    rule.degreeOf holds = .tier rank ↔
      (∀ condition ∈ rule.condition, holds condition = true) ∧
        IsFirst (fun tier => holds tier = true) rule.tiers rank := by
  have hcondition : (∀ condition ∈ rule.condition, holds condition = true) ↔
      rule.condition.all holds = true := (Option.all_eq_true _ _).symm
  rw [degreeOf, isFirst_iff_findIdx?, hcondition]
  cases rule.condition.all holds with
  | false => simp
  | true =>
    cases rule.tiers.findIdx? holds with
    | none => simp
    | some i => simp [eq_comm]

end ChoiceRule

theorem Degree.eq_unsatisfied_iff {d : Degree} : d = .unsatisfied ↔ ∀ rank, d ≠ .tier rank := by
  cases d <;> simp

/-! ## Questions -/

namespace Oracle

variable {σ : Type} {o : Oracle σ} {object : Object} {holds : Formula → Bool}

/-- If the oracle answers as the formulas hold, the first tier that it confirms is the first one
that holds. -/
theorem firstTier_eq {tiers : List Formula} {rank : Nat} {d : Degree}
    (hanswers : ∀ tier ∈ tiers, ∀ answer, (o.satisfiable (object.pinned tier)).Yields answer →
      answer = holds tier)
    (h : (o.firstTier object rank tiers).Yields d) :
    d = match tiers.findIdx? holds with
      | some i => .tier (rank + i)
      | none => .unsatisfied := by
  induction tiers generalizing rank with
  | nil =>
    obtain ⟨s, t, h⟩ := h
    exact (Evaluation.returns_pure.mp h).1.symm
  | cons tier rest ih =>
    obtain ⟨s, t, h⟩ := h
    rw [firstTier, Evaluation.returns_bind] at h
    obtain ⟨answer, u, hanswer, h⟩ := h
    have heq := hanswers tier List.mem_cons_self answer hanswer.yields
    rw [List.findIdx?_cons, ← heq]
    cases answer with
    | true => exact (Evaluation.returns_pure.mp h).1.symm
    | false =>
      rw [ih (fun f hf => hanswers f (List.mem_cons_of_mem _ hf)) ⟨u, t, h⟩]
      cases rest.findIdx? holds with
      | none => rfl
      | some i => simp [Nat.add_assoc, Nat.add_comm 1 i]

theorem degree_eq_of_answers {rule : ChoiceRule} {d : Degree}
    (hanswers : ∀ f, f ∈ rule.tiers ∨ f ∈ rule.condition → ∀ answer,
      (o.satisfiable (object.pinned f)).Yields answer → answer = holds f)
    (h : (o.degree rule object).Yields d) : d = rule.degreeOf holds := by
  have htiers : ∀ u t, (o.firstTier object 1 rule.tiers).Returns u d t →
      d = match rule.tiers.findIdx? holds with
        | some i => .tier (i + 1)
        | none => .unsatisfied := by
    intro u t h
    rw [firstTier_eq (fun f hf => hanswers f (.inl hf)) h.yields]
    cases rule.tiers.findIdx? holds with
    | none => rfl
    | some i => exact congrArg Degree.tier (Nat.add_comm 1 i)
  obtain ⟨s, t, h⟩ := h
  unfold degree at h
  unfold ChoiceRule.degreeOf
  cases hcondition : rule.condition with
  | none =>
    rw [hcondition] at h
    exact htiers s t h
  | some condition =>
    rw [hcondition] at h
    simp only [Evaluation.returns_bind] at h
    obtain ⟨answer, u, hanswer, h⟩ := h
    have heq := hanswers condition (.inr hcondition) answer hanswer.yields
    rw [Option.all_some, ← heq]
    cases answer with
    | true => exact htiers u t h
    | false => exact (Evaluation.returns_pure.mp h).1.symm

/-- A rank is never below the first one and never beyond the last tier. -/
theorem rank_lt_of_firstTier {tiers : List Formula} {first rank : Nat}
    (h : (o.firstTier object first tiers).Yields (.tier rank)) :
    first ≤ rank ∧ rank < first + tiers.length := by
  induction tiers generalizing first with
  | nil =>
    obtain ⟨s, t, h⟩ := h
    cases (Evaluation.returns_pure.mp h).1
  | cons tier rest ih =>
    obtain ⟨s, t, h⟩ := h
    rw [firstTier, Evaluation.returns_bind] at h
    obtain ⟨answer, u, -, h⟩ := h
    rw [List.length_cons]
    cases answer with
    | true =>
      cases (Evaluation.returns_pure.mp h).1
      omega
    | false =>
      have := ih ⟨u, t, h⟩
      omega

/-- Whatever the oracle answers, a rank is that of a tier of the rule. -/
theorem rank_le_of_degree {rule : ChoiceRule} {rank : Nat}
    (h : (o.degree rule object).Yields (.tier rank)) : 1 ≤ rank ∧ rank ≤ rule.tiers.length := by
  have htiers : (o.firstTier object 1 rule.tiers).Yields (.tier rank) := by
    obtain ⟨s, t, h⟩ := h
    unfold degree at h
    cases hcondition : rule.condition with
    | none =>
      rw [hcondition] at h
      exact h.yields
    | some condition =>
      rw [hcondition] at h
      simp only [Evaluation.returns_bind] at h
      obtain ⟨answer, u, -, h⟩ := h
      cases answer with
      | true => exact h.yields
      | false => cases (Evaluation.returns_pure.mp h).1
  have := rank_lt_of_firstTier htiers
  omega

theorem degree_eq (ho : o.Decides) {v : Vocabulary} (hobject : object ∈ v.objects)
    {rule : ChoiceRule} (htiers : ∀ tier ∈ rule.tiers, tier.reach ≤ v.size)
    (hcondition : ∀ condition ∈ rule.condition, condition.reach ≤ v.size) {d : Degree}
    (h : (o.degree rule object).Yields d) :
    d = rule.degreeOf fun f => f.eval object.valuation := by
  refine degree_eq_of_answers (fun f hf answer hanswer => ?_) h
  have hreach : f.reach ≤ v.size := hf.elim (htiers f) (hcondition f)
  rw [Bool.eq_iff_iff, ho _ _ hanswer, Vocabulary.satisfiable_pinned_iff_eval hobject hreach]

end Oracle

/-! ## Tables -/

section

variable {σ : Type} {o : Oracle σ} {object : Object}

/-- The row of the object with a given number: one degree for each rule. -/
structure DegreeRow.Scores (o : Oracle σ) (rules : List ChoiceRule) (id : Nat) (object : Object)
    (row : DegreeRow) : Prop where
  object_eq : row.object = id
  degrees : List.Forall₂ (fun rule d => (o.degree rule object).Yields d) rules row.degrees

theorem DegreeRow.of_score {rules : List ChoiceRule} {id : Nat} {row : DegreeRow}
    (h : (DegreeRow.score o rules id object).Yields row) : row.Scores o rules id object := by
  obtain ⟨s, t, h⟩ := h
  simp only [score, Evaluation.returns_bind, Evaluation.returns_note,
    Evaluation.returns_pure] at h
  obtain ⟨degrees, u, hdegrees, _, _, _, rfl, _⟩ := h
  exact ⟨rfl, hdegrees.forall₂_of_mapM⟩

variable {rules : List ChoiceRule} {objects : List Object} {ids : List Nat} {table : DegreeTable}

theorem DegreeTable.of_score (h : (DegreeTable.score o rules objects ids).Yields table) :
    table.rules = rules.map ChoiceRule.name ∧
      List.Forall₂ (fun id row => DegreeRow.Scores o rules id objects[id]! row) ids table.rows := by
  obtain ⟨s, t, h⟩ := h
  simp only [score, List.getElem!_toArray, Evaluation.returns_bind, Evaluation.returns_pure] at h
  obtain ⟨rows, u, hrows, rfl, -⟩ := h
  exact ⟨rfl, hrows.forall₂_of_mapM.imp fun _ _ => DegreeRow.of_score⟩

/-- Every row of a table that is scored has one degree for each rule. -/
theorem DegreeTable.length_degrees (h : (DegreeTable.score o rules objects ids).Yields table)
    {row : DegreeRow} (hrow : row ∈ table.rows) : row.degrees.length = rules.length := by
  obtain ⟨id, -, hscores⟩ := exists_mem_of_forall₂ (DegreeTable.of_score h).2 hrow
  exact hscores.degrees.length_eq.symm

end

end PreferenceLogic
