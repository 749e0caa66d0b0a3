import PreferenceLogic.Formula.Basic

/-!
# Clauses in the course of a search

A remnant is a clause some of whose literals are denied by the values decided so far. It remembers
the denied ones, so that a clause of which nothing is left tells which decisions are at fault.

Definitions:
* `Remnant.Holds`: some literal of a clause holds, whether it is denied or not.
* `Remnant.given`, `Remnant.after`: what is left of clauses once a literal holds.
* `Remnant.reopen`: the same clause once that decision is taken back.
* `Remnant.shortest`, `Remnant.commonest`: where a search goes on.

Results:
* `Remnant.holds_of_mem_after`, `Remnant.holds_reopen`: a decision does not change what a clause
  says, only what is left of it.
* `Remnant.all_left_after`: where a literal holds, what is left of some clauses says the same before
  and after it is decided.
-/

namespace PreferenceLogic

/-- A clause in the course of a search. -/
structure Remnant where
  /-- The literals that may still hold. -/
  left : Clause
  /-- The literals that are denied by the values decided so far. -/
  denied : Clause
deriving Repr

namespace Remnant

/-- A clause before anything is decided. -/
def ofClause (c : Clause) : Remnant := ⟨c, []⟩

/-- Some literal of a clause holds under a valuation. -/
def Holds (v : Valuation) (r : Remnant) : Prop :=
  ∃ l, (l ∈ r.left ∨ l ∈ r.denied) ∧ l.eval v = true

/-! ## Decisions -/

/-- What is left of a clause once a literal holds; nothing if the clause is satisfied. -/
def given (l : Literal) (r : Remnant) : Option Remnant :=
  if r.left.contains l then none
  else if r.left.contains l.negate then
    some ⟨r.left.filter (· != l.negate), l.negate :: r.denied⟩
  else some r

/-- What is left of some clauses once a literal holds. -/
def after (l : Literal) (rs : List Remnant) : List Remnant := rs.filterMap (given l)

/-- The same clause once a literal is no more denied. -/
def reopen (l : Literal) (r : Remnant) : Remnant :=
  if r.denied.contains l then ⟨l :: r.left, r.denied.filter (· != l)⟩ else r

variable {v : Valuation} {l m : Literal} {r s : Remnant} {rs : List Remnant}

theorem given_eq_none_iff : r.given l = none ↔ l ∈ r.left := by
  unfold given
  split
  · simp_all
  · split <;> simp_all

theorem mem_left_of_given (h : r.given l = some s) :
    m ∈ s.left ↔ m ∈ r.left ∧ m.atom ≠ l.atom := by
  have hl : l ∉ r.left := fun hl => by simp [given_eq_none_iff.2 hl] at h
  have hneg : m = l.negate → m.atom = l.atom := fun h => h ▸ rfl
  unfold given at h
  split at h
  · simp at h
  · split at h
    · obtain rfl := Option.some.inj h
      simp only [List.mem_filter, bne_iff_ne, ne_eq]
      constructor
      · rintro ⟨hm, hne⟩
        exact ⟨hm, fun ha => (Literal.eq_or_eq_negate ha).elim (fun e => hl (e ▸ hm)) hne⟩
      · rintro ⟨hm, hne⟩
        exact ⟨hm, fun e => hne (hneg e)⟩
    · rename_i hnot
      obtain rfl := Option.some.inj h
      refine ⟨fun hm => ⟨hm, fun ha => ?_⟩, fun hm => hm.1⟩
      rcases Literal.eq_or_eq_negate ha with rfl | rfl
      · exact hl hm
      · simp_all

theorem mem_denied_of_given (h : r.given l = some s) :
    m ∈ s.denied ↔ m ∈ r.denied ∨ (m = l.negate ∧ m ∈ r.left) := by
  unfold given at h
  split at h
  · simp at h
  · split at h
    · rename_i hin
      obtain rfl := Option.some.inj h
      simp only [List.contains_iff_mem] at hin
      simp only [List.mem_cons]
      exact ⟨fun hm => hm.elim (fun e => .inr ⟨e, e ▸ hin⟩) .inl,
        fun hm => hm.elim .inr fun ⟨e, _⟩ => .inl e⟩
    · rename_i hnot
      obtain rfl := Option.some.inj h
      exact ⟨.inl, fun hm => hm.elim id fun ⟨e, hm⟩ => by simp_all⟩

theorem mem_left_reopen : m ∈ (r.reopen l).left ↔ m ∈ r.left ∨ (m = l ∧ m ∈ r.denied) := by
  unfold reopen
  split
  · rename_i hin
    simp only [List.contains_iff_mem] at hin
    simp only [List.mem_cons]
    exact ⟨fun hm => hm.elim (fun e => .inr ⟨e, e ▸ hin⟩) .inl,
      fun hm => hm.elim .inr fun ⟨e, _⟩ => .inl e⟩
  · exact ⟨.inl, fun hm => hm.elim id fun ⟨e, hm⟩ => by simp_all⟩

theorem mem_denied_reopen : m ∈ (r.reopen l).denied ↔ m ∈ r.denied ∧ m ≠ l := by
  unfold reopen
  split
  · simp
  · rename_i hnot
    exact ⟨fun hm => ⟨hm, fun e => by simp_all⟩, And.left⟩

theorem holds_of_given (h : r.given l = some s) : s.Holds v ↔ r.Holds v := by
  have hmem : ∀ m, (m ∈ s.left ∨ m ∈ s.denied) ↔ (m ∈ r.left ∨ m ∈ r.denied) := by
    intro m
    have hl : l ∉ r.left := fun hl => by simp [given_eq_none_iff.2 hl] at h
    rw [mem_left_of_given h, mem_denied_of_given h]
    by_cases ha : m.atom = l.atom
    · rcases Literal.eq_or_eq_negate ha with rfl | rfl
      · simp [hl, Literal.negate]
      · simp [or_comm, Literal.negate]
    · have : m ≠ l.negate := fun e => ha (e ▸ rfl)
      simp [ha, this]
  simp only [Holds, hmem]

theorem holds_reopen : (r.reopen l).Holds v ↔ r.Holds v := by
  have hmem : ∀ m, (m ∈ (r.reopen l).left ∨ m ∈ (r.reopen l).denied) ↔
      (m ∈ r.left ∨ m ∈ r.denied) := by
    intro m
    rw [mem_left_reopen, mem_denied_reopen]
    by_cases he : m = l <;> simp [he]
  simp only [Holds, hmem]

/-! ## Choices -/

/-- The first of the clauses with the fewest literals left. -/
def shortest (best : Remnant) : List Remnant → Remnant
  | [] => best
  | r :: rest =>
    if best.left.isEmpty then best
    else shortest (if r.left.length < best.left.length then r else best) rest

theorem shortest_mem (best : Remnant) (rest : List Remnant) :
    shortest best rest ∈ best :: rest := by
  induction rest generalizing best with
  | nil => simp [shortest]
  | cons r rest ih =>
    unfold shortest
    split
    · exact List.mem_cons_self
    · split
      · exact List.mem_cons_of_mem _ (ih r)
      · rcases List.mem_cons.1 (ih best) with h | h
        · exact List.mem_cons.2 (.inl h)
        · exact List.mem_cons_of_mem _ (List.mem_cons_of_mem _ h)

/-- The number of clauses in which a literal is left. -/
def occurrences (rs : List Remnant) (l : Literal) : Nat := rs.countP fun r => r.left.contains l

/-- The first of some literals that are left in the most clauses; the best one so far is given with
its number of clauses. -/
def commonest (rs : List Remnant) (best : Nat × Literal) : List Literal → Literal
  | [] => best.2
  | l :: rest =>
    let count := occurrences rs l
    commonest rs (if best.1 < count then (count, l) else best) rest

theorem commonest_mem (rs : List Remnant) (best : Nat × Literal) (rest : List Literal) :
    commonest rs best rest ∈ best.2 :: rest := by
  induction rest generalizing best with
  | nil => simp [commonest]
  | cons l rest ih =>
    simp only [commonest]
    split
    · exact List.mem_cons_of_mem _ (ih _)
    · rcases List.mem_cons.1 (ih best) with h | h
      · exact List.mem_cons.2 (.inl h)
      · exact List.mem_cons_of_mem _ (List.mem_cons_of_mem _ h)

/-! ## Lists of clauses -/

/-- A literal is left in one of some clauses. -/
def Left (rs : List Remnant) (l : Literal) : Prop := ∃ r ∈ rs, l ∈ r.left

/-- A literal is denied in one of some clauses. -/
def Denied (rs : List Remnant) (l : Literal) : Prop := ∃ r ∈ rs, l ∈ r.denied

theorem left_after (h : Left (after l rs) m) : Left rs m ∧ m.atom ≠ l.atom := by
  obtain ⟨s, hs, hm⟩ := h
  obtain ⟨r, hr, hgiven⟩ := List.mem_filterMap.1 hs
  have := (mem_left_of_given hgiven).1 hm
  exact ⟨⟨r, hr, this.1⟩, this.2⟩

theorem denied_after (h : Denied (after l rs) m) : Denied rs m ∨ m = l.negate := by
  obtain ⟨s, hs, hm⟩ := h
  obtain ⟨r, hr, hgiven⟩ := List.mem_filterMap.1 hs
  exact ((mem_denied_of_given hgiven).1 hm).elim (fun hm => .inl ⟨r, hr, hm⟩) fun hm => .inr hm.1

theorem holds_of_mem_after (h : ∀ r ∈ rs, r.Holds v) (hs : s ∈ after l rs) : s.Holds v := by
  obtain ⟨r, hr, hgiven⟩ := List.mem_filterMap.1 hs
  exact (holds_of_given hgiven).2 (h r hr)

theorem eval_left_of_given (h : r.given l = some s) (hl : l.eval v = true) :
    s.left.eval v = r.left.eval v := by
  rw [Clause.eval, Clause.eval, Bool.eq_iff_iff, List.any_eq_true, List.any_eq_true]
  constructor
  · rintro ⟨m, hm, he⟩
    exact ⟨m, ((mem_left_of_given h).1 hm).1, he⟩
  · rintro ⟨m, hm, he⟩
    refine ⟨m, (mem_left_of_given h).2 ⟨hm, fun ha => ?_⟩, he⟩
    have : m = l := by
      obtain ⟨a, p⟩ := m
      obtain ⟨b, q⟩ := l
      simp only [Literal.eval, beq_iff_eq] at he hl
      simp_all
    simp [given_eq_none_iff.2 (this ▸ hm)] at h

theorem all_left_after (hl : l.eval v = true) :
    (∀ r ∈ after l rs, r.left.eval v = true) ↔ ∀ r ∈ rs, r.left.eval v = true := by
  constructor
  · intro h r hr
    cases hgiven : r.given l with
    | none => exact List.any_eq_true.2 ⟨l, given_eq_none_iff.1 hgiven, hl⟩
    | some s =>
      rw [← eval_left_of_given hgiven hl]
      exact h s (List.mem_filterMap.2 ⟨r, hr, hgiven⟩)
  · intro h s hs
    obtain ⟨r, hr, hgiven⟩ := List.mem_filterMap.1 hs
    rw [eval_left_of_given hgiven hl]
    exact h r hr

end Remnant

end PreferenceLogic
