import PreferenceLogic.Oracle.Search.Outcome

/-!
# The outcomes of a search are valid

A conflict follows from the clauses as they were before anything was decided, because a remnant
keeps its denied literals. So it stays true when decisions are taken back, and a decision that it
does not mention cannot be at fault. What is learnt follows for the same reason.

Definitions:
* `Follows`, `Distinct`: the valuations on a path, and the paths that have one.
* `Search.Outcome.Learnt`: the clauses that follow from others.
* `Search.Outcome.Reason`: the clauses of denied literals because of which a literal holds.
* `Search.Outcome.Valid`: what an outcome promises about the clauses of the search.

Results:
* `Search.Outcome.Reason.eval_append`: the reasons for a literal and for its opposite are resolved.
* `Search.Outcome.valid_branch`: what is found after a decision, beside what is open without it.
* `Search.Outcome.valid_ofRemnants`: every search with enough fuel has a valid outcome.
-/

namespace PreferenceLogic

/-! ## Paths -/

/-- The values of a path hold. -/
def Follows (v : Valuation) (path : List Literal) : Prop := ∀ l ∈ path, l.eval v = true

/-- The values of a path belong to different atoms. -/
def Distinct (path : List Literal) : Prop := path.Pairwise fun l m => l.atom ≠ m.atom

theorem follows_cons {v : Valuation} {l : Literal} {path : List Literal} :
    Follows v (l :: path) ↔ l.eval v = true ∧ Follows v path := List.forall_mem_cons

theorem distinct_cons {l : Literal} {path : List Literal} (h : Distinct path)
    (hl : ∀ m ∈ path, m.atom ≠ l.atom) : Distinct (l :: path) :=
  List.pairwise_cons.2 ⟨fun m hm heq => hl m hm heq.symm, h⟩

/-- A clause says the same without its repetitions. -/
theorem Clause.eval_eraseDups {v : Valuation} (c : Clause) :
    Clause.eval v c.eraseDups = Clause.eval v c := by
  rw [eval, eval, Bool.eq_iff_iff, List.any_eq_true, List.any_eq_true]
  simp only [List.mem_eraseDups]

namespace Search.Outcome

open Remnant

/-! ## What was learnt -/

/-- Clauses that follow from others and mention no other atoms. -/
structure Learnt (rs learnt : List Remnant) : Prop where
  holds (v : Valuation) : (∀ r ∈ rs, r.Holds v) → ∀ r ∈ learnt, r.Holds v
  denied (l : Literal) : Denied learnt l → Denied rs l
  left (l : Literal) : Left learnt l → ∃ m, Left rs m ∧ m.atom = l.atom

variable {rs learnt more : List Remnant} {l : Literal} {v : Valuation}

theorem Learnt.nil : Learnt rs [] where
  holds := by simp
  denied := by simp [Denied]
  left := by simp [Left]

theorem Learnt.of_subset (h : Learnt rs learnt) (hsub : more ⊆ learnt) : Learnt rs more where
  holds v hv r hr := h.holds v hv r (hsub hr)
  denied l := fun ⟨r, hr, hl⟩ => h.denied l ⟨r, hsub hr, hl⟩
  left l := fun ⟨r, hr, hl⟩ => h.left l ⟨r, hsub hr, hl⟩

theorem Learnt.append (h : Learnt rs learnt) (h' : Learnt rs more) :
    Learnt rs (learnt ++ more) where
  holds v hv r hr := (List.mem_append.1 hr).elim (h.holds v hv r) (h'.holds v hv r)
  denied l := fun ⟨r, hr, hl⟩ =>
    (List.mem_append.1 hr).elim (h.denied l ⟨r, ·, hl⟩) (h'.denied l ⟨r, ·, hl⟩)
  left l := fun ⟨r, hr, hl⟩ =>
    (List.mem_append.1 hr).elim (h.left l ⟨r, ·, hl⟩) (h'.left l ⟨r, ·, hl⟩)

theorem Learnt.refl : Learnt rs rs where
  holds _ := id
  denied _ := id
  left l h := ⟨l, h, rfl⟩

theorem Learnt.trans (h : Learnt rs learnt) (h' : Learnt learnt more) : Learnt rs more where
  holds v hv := h'.holds v (h.holds v hv)
  denied l hl := h.denied l (h'.denied l hl)
  left l hl := by
    obtain ⟨m, hm, hatom⟩ := h'.left l hl
    obtain ⟨k, hk, hatom'⟩ := h.left m hm
    exact ⟨k, hk, hatom'.trans hatom⟩

/-- What is learnt after a decision follows without it, once the decision is taken back. -/
theorem Learnt.reopen (h : Learnt (after l rs) learnt) (hl : ∃ m, Left rs m ∧ m.atom = l.atom) :
    Learnt rs (learnt.map (Remnant.reopen l.negate)) where
  holds v hv r hr := by
    obtain ⟨s, hs, rfl⟩ := List.mem_map.1 hr
    exact holds_reopen.2 (h.holds v (fun r => holds_of_mem_after hv) s hs)
  denied m := by
    rintro ⟨r, hr, hm⟩
    obtain ⟨s, hs, rfl⟩ := List.mem_map.1 hr
    rw [mem_denied_reopen] at hm
    exact (denied_after (h.denied m ⟨s, hs, hm.1⟩)).resolve_right hm.2
  left m := by
    rintro ⟨r, hr, hm⟩
    obtain ⟨s, hs, rfl⟩ := List.mem_map.1 hr
    rcases mem_left_reopen.1 hm with hm | ⟨rfl, -⟩
    · obtain ⟨k, hk, hatom⟩ := h.left m ⟨s, hs, hm⟩
      exact ⟨k, (left_after hk).1, hatom⟩
    · exact hl

/-! ## Reasons -/

/-- A clause of denied literals is the reason for a literal: where the literal fails, one of them
holds instead. -/
structure Reason (rs : List Remnant) (l : Literal) (reason : Clause) : Prop where
  denied (m : Literal) : m ∈ reason → Denied rs m
  eval_or (v : Valuation) : (∀ r ∈ rs, r.Holds v) → l.eval v = true ∨ reason.eval v = true

variable {reason other : Clause}

/-- If one literal is left of a clause, the denied ones are the reason for it. -/
theorem Reason.of_left_eq_singleton {r : Remnant} (hr : r ∈ rs) (hleft : r.left = [l]) :
    Reason rs l r.denied where
  denied m hm := ⟨r, hr, hm⟩
  eval_or v hv := by
    obtain ⟨m, hm, he⟩ := hv r hr
    rw [hleft, List.mem_singleton] at hm
    rcases hm with rfl | hm
    · exact .inl he
    · exact .inr (List.any_eq_true.2 ⟨m, hm, he⟩)

theorem Reason.of_learnt (hlearnt : Learnt rs learnt) (h : Reason learnt l reason) :
    Reason rs l reason where
  denied m hm := hlearnt.denied m (h.denied m hm)
  eval_or v hv := h.eval_or v (hlearnt.holds v hv)

/-- Of the reasons for a literal and for its opposite, one holds. -/
theorem Reason.eval_append (h : Reason rs l reason) (h' : Reason rs l.negate other)
    (hv : ∀ r ∈ rs, r.Holds v) : Clause.eval v (reason ++ other) = true := by
  rw [Clause.eval, List.any_append, Bool.or_eq_true]
  rcases h.eval_or v hv with hl | he
  · refine .inr ((h'.eval_or v hv).resolve_left ?_)
    simp [hl]
  · exact .inl he

/-- A reason for a literal is learnt as a clause of which only the literal is left. -/
theorem Learnt.singleton (hl : ∃ m, Left rs m ∧ m.atom = l.atom) (h : Reason rs l reason) :
    Learnt rs [⟨[l], reason⟩] where
  holds v hv r hr := by
    obtain rfl := List.mem_singleton.1 hr
    rcases h.eval_or v hv with he | he
    · exact ⟨l, .inl (List.mem_singleton.2 rfl), he⟩
    · obtain ⟨m, hm, he⟩ := List.any_eq_true.1 he
      exact ⟨m, .inr hm, he⟩
  denied m := by
    rintro ⟨r, hr, hm⟩
    obtain rfl := List.mem_singleton.1 hr
    exact h.denied m hm
  left m := by
    rintro ⟨r, hr, hm⟩
    obtain rfl := List.mem_singleton.1 hr
    obtain rfl := List.mem_singleton.1 hm
    exact hl

/-! ## Validity -/

/-- What an outcome promises about the clauses of the search. -/
def Valid (rs : List Remnant) : Outcome → Prop
  | found path space =>
    (∀ v : Valuation, (∀ l, Denied rs l → l.eval v = false) →
      (space.Contains v ↔ ∀ r ∈ rs, r.left.eval v = true)) ∧
    (∀ v : Valuation, Follows v path → ∀ r ∈ rs, r.left.eval v = true) ∧
    (∀ atom, (∀ l, Left rs l → l.atom ≠ atom) →
      space.Avoids atom ∧ ∀ l ∈ path, l.atom ≠ atom) ∧
    space.Decided ∧ Distinct path
  | refuted conflict learnt =>
    (∀ v : Valuation, (∀ r ∈ rs, r.Holds v) → conflict.eval v = true) ∧
    (∀ l ∈ conflict, Denied rs l) ∧ Learnt rs learnt

theorem not_left_after (l : Literal) (rs : List Remnant) (m : Literal)
    (h : Left (after l rs) m) : m.atom ≠ l.atom := (left_after h).2

theorem holds_of_left (h : ∀ r ∈ rs, r.left.eval v = true) : ∀ r ∈ rs, r.Holds v := by
  intro r hr
  obtain ⟨l, hl, he⟩ := List.any_eq_true.1 (h r hr)
  exact ⟨l, .inl hl, he⟩

theorem left_of_holds (hdenied : ∀ l, Denied rs l → l.eval v = false)
    (h : ∀ r ∈ rs, r.Holds v) : ∀ r ∈ rs, r.left.eval v = true := by
  intro r hr
  obtain ⟨l, hl | hl, he⟩ := h r hr
  · exact List.any_eq_true.2 ⟨l, hl, he⟩
  · simp [hdenied l ⟨r, hr, hl⟩] at he

/-! ## Conflicts -/

variable {conflict : Clause}

/-- If nothing is left of a clause, its denied literals are a conflict. -/
theorem valid_refuted_of_left_eq_nil {r : Remnant} (hr : r ∈ rs) (hleft : r.left = []) :
    Valid rs (refuted r.denied []) := by
  refine ⟨fun v hv => ?_, fun m hm => ⟨r, hr, hm⟩, .nil⟩
  obtain ⟨l, hl, he⟩ := hv r hr
  rw [hleft] at hl
  exact List.any_eq_true.2 ⟨l, hl.resolve_left List.not_mem_nil, he⟩

/-- A conflict that is not about a decision was there before it. -/
theorem valid_refuted_of_after (hl : ∃ m, Left rs m ∧ m.atom = l.atom)
    (h : Valid (after l rs) (refuted conflict learnt)) (hnot : l.negate ∉ conflict) :
    Valid rs (refuted conflict (learnt.map (Remnant.reopen l.negate))) := by
  obtain ⟨hholds, hdenied, hlearnt⟩ := h
  refine ⟨fun v hv => hholds v fun r => holds_of_mem_after hv, fun m hm => ?_, hlearnt.reopen hl⟩
  exact (denied_after (hdenied m hm)).resolve_right fun heq => hnot (heq ▸ hm)

/-- A conflict about a decision is a reason for the opposite literal. -/
theorem Reason.of_conflict (h : Valid (after l rs) (refuted conflict learnt)) :
    Reason rs l.negate (conflict.filter (· != l.negate)) := by
  obtain ⟨hholds, hdenied, -⟩ := h
  refine ⟨fun m hm => ?_, fun v hv => ?_⟩
  · simp only [List.mem_filter, bne_iff_ne, ne_eq] at hm
    exact (denied_after (hdenied m hm.1)).resolve_right hm.2
  · obtain ⟨m, hm, he⟩ := List.any_eq_true.1 (hholds v fun r => holds_of_mem_after hv)
    by_cases heq : m = l.negate
    · exact .inl (heq ▸ he)
    · exact .inr (List.any_eq_true.2 ⟨m, by simp [hm, heq], he⟩)

/-- What is kept of a conflict about a decision: the reason against the decision, and what was
learnt after it. -/
theorem Learnt.of_conflict (hl : Left rs l) (h : Valid (after l rs) (refuted conflict learnt)) :
    Learnt rs ((⟨[l.negate], conflict.filter (· != l.negate)⟩ ::
      learnt.map (Remnant.reopen l.negate)).take memory) := by
  have hreason : Learnt rs [⟨[l.negate], conflict.filter (· != l.negate)⟩] :=
    .singleton ⟨l, hl, rfl⟩ (.of_conflict h)
  exact (hreason.append (h.2.2.reopen ⟨l, hl, rfl⟩)).of_subset (List.take_subset _ _)

/-! ## Decisions -/

/-- What is found after a decision, beside a space of what is open without it. Before the decision
the clauses may have been joined by some that were learnt. -/
theorem valid_branch {path : List Literal} {space rest : Space}
    (hl : ∃ m, Left rs m ∧ m.atom = l.atom) (hlearnt : Learnt rs learnt)
    (hfound : Valid (after l (learnt ++ rs)) (found path space))
    (hcontains : ∀ v : Valuation, (∀ m, Denied rs m → m.eval v = false) → l.eval v = false →
      (rest.Contains v ↔ ∀ r ∈ rs, r.left.eval v = true))
    (havoids : ∀ atom, (∀ m, Left rs m → m.atom ≠ atom) → rest.Avoids atom)
    (hrest : rest.Avoids l.atom) (hdecided : rest.Decided) :
    Valid rs (found (l :: path) (.branch l space rest)) := by
  have hall : Learnt rs (learnt ++ rs) := hlearnt.append .refl
  have hleft : ∀ v : Valuation, (∀ r ∈ learnt ++ rs, r.left.eval v = true) →
      ∀ r ∈ rs, r.left.eval v = true := fun v h r hr => h r (List.mem_append_right _ hr)
  obtain ⟨hspace, hfollows, hfree, hspaceDecided, hdistinct⟩ := hfound
  have hafter := hfree l.atom (not_left_after l _)
  refine ⟨fun v hv => ?_, fun v hv => ?_, fun atom hatom => ?_, ?_, ?_⟩
  · rw [Space.contains_branch]
    split
    · rename_i hlv
      have hall' : ∀ m, Denied (learnt ++ rs) m → m.eval v = false :=
        fun m hm => hv m (hall.denied m hm)
      rw [hspace v fun m hm => (denied_after hm).elim (hall' m) fun e => by simp [e, hlv],
        all_left_after hlv]
      exact ⟨hleft v, fun h => left_of_holds hall' (hall.holds v (holds_of_left h))⟩
    · rename_i hlv
      exact hcontains v hv (by simpa using hlv)
  · rw [follows_cons] at hv
    exact hleft v ((all_left_after hv.1).1 (hfollows v hv.2))
  · have hne : l.atom ≠ atom := by
      obtain ⟨m, hm, heq⟩ := hl
      exact heq ▸ hatom m hm
    have hunder := hfree atom fun m hm => by
      obtain ⟨k, hk, heq⟩ := hall.left m (left_after hm).1
      exact heq ▸ hatom k hk
    exact ⟨Space.avoids_branch.2 ⟨hne, hunder.1, havoids atom hatom⟩,
      List.forall_mem_cons.2 ⟨hne, hunder.2⟩⟩
  · exact Space.decided_branch.2 ⟨hafter.1, hrest, hspaceDecided, hdecided⟩
  · exact distinct_cons hdistinct hafter.2

/-- What is found after a decision, together with what is open without it. -/
theorem valid_found_of_after {path : List Literal} {space : Space} (hl : Left rs l)
    (h : Valid (after l rs) (found path space)) :
    Valid rs (found (l :: path)
      (.branch l space (.region ((after l.negate rs).map Remnant.left)))) := by
  have hopen : ∀ c ∈ (after l.negate rs).map Remnant.left, ∀ m ∈ c,
      Left rs m ∧ m.atom ≠ l.atom := by
    intro c hc m hm
    obtain ⟨r, hr, rfl⟩ := List.mem_map.1 hc
    exact left_after (l := l.negate) ⟨r, hr, hm⟩
  refine valid_branch ⟨l, hl, rfl⟩ .nil h (fun v _ hlv => ?_)
    (fun atom hatom c hc m hm => hatom m (hopen c hc m hm).1)
    (fun c hc m hm => (hopen c hc m hm).2) trivial
  rw [← all_left_after (l := l.negate) (by simp [hlv])]
  simp [Space.Contains]

/-- Deciding a literal for a reason. -/
theorem valid_force {o : Outcome} (hl : ∃ m, Left rs m ∧ m.atom = l.atom)
    (hreason : Reason rs l reason) (hlearnt : Learnt rs learnt)
    (ho : Valid (after l (learnt ++ rs)) o) : Valid rs (force l reason learnt o) := by
  have hall : Learnt rs (learnt ++ rs) := hlearnt.append .refl
  cases o with
  | found path space =>
    -- without the literal nothing is open, because no literal of the reason can hold
    refine valid_branch hl hlearnt ho (fun v hv hlv => ?_) (fun _ _ => trivial) trivial trivial
    simp only [Space.Contains, false_iff]
    intro h
    rcases hreason.eval_or v (holds_of_left h) with he | he
    · simp [hlv] at he
    · obtain ⟨m, hm, he⟩ := List.any_eq_true.1 he
      simp [hv m (hreason.denied m hm)] at he
  | refuted conflict more =>
    have hlall : ∃ m, Left (learnt ++ rs) m ∧ m.atom = l.atom := by
      obtain ⟨m, ⟨r, hr, hm⟩, hatom⟩ := hl
      exact ⟨m, ⟨r, List.mem_append_right _ hr, hm⟩, hatom⟩
    have hmore : Learnt rs ((more.map (Remnant.reopen l.negate) ++ learnt).take memory) :=
      ((hall.trans (ho.2.2.reopen hlall)).append hlearnt).of_subset (List.take_subset _ _)
    simp only [force]
    split
    · have hother : Reason rs l.negate (conflict.filter (· != l.negate)) :=
        .of_learnt hall (.of_conflict ho)
      refine ⟨fun v hv => ?_, fun m hm => ?_, hmore⟩
      · rw [Clause.eval_eraseDups]
        exact hreason.eval_append hother hv
      · rw [List.mem_eraseDups, List.mem_append] at hm
        exact hm.elim (hreason.denied m) (hother.denied m)
    · rename_i hnot
      have hbefore := valid_refuted_of_after hlall ho (by simpa using hnot)
      exact ⟨fun v hv => hbefore.1 v (hall.holds v hv),
        fun m hm => hall.denied m (hbefore.2.1 m hm), hmore⟩

/-- A search has a valid outcome if its fuel is more than the number of atoms that are left. -/
theorem valid_ofRemnants (fuel : Nat) (rs : List Remnant) (pool : List Nat)
    (hpool : ∀ l, Left rs l → l.atom ∈ pool) (hfuel : pool.length < fuel) :
    (ofRemnants fuel rs).Valid rs := by
  induction fuel generalizing rs pool with
  | zero => omega
  | succ fuel ih =>
    -- a decision takes its atom out of the pool
    have step : ∀ (l : Literal) (ss : List Remnant), (∃ m, Left rs m ∧ m.atom = l.atom) →
        (∀ m, Left ss m → m.atom ∈ pool) → (ofRemnants fuel (after l ss)).Valid (after l ss) := by
      rintro l ss ⟨k, hk, hatom⟩ hss
      have hmem : l.atom ∈ pool := hatom ▸ hpool k hk
      refine ih _ (pool.erase l.atom) (fun m hm => ?_) ?_
      · have := left_after hm
        exact (List.mem_erase_of_ne this.2).2 (hss m this.1)
      · rw [List.length_erase_of_mem hmem]
        have := List.length_pos_of_mem hmem
        omega
    cases rs with
    | nil =>
      refine ⟨?_, ?_, ?_, trivial, List.Pairwise.nil⟩ <;>
        simp [Space.Contains, Space.Avoids]
    | cons r rest =>
      have hs := shortest_mem r rest
      simp only [ofRemnants]
      generalize shortest r rest = s at hs
      generalize r :: rest = rs at *
      split
      · rename_i hleft
        exact valid_refuted_of_left_eq_nil hs hleft
      · rename_i l hleft
        have hl : Left rs l := ⟨s, hs, by simp [hleft]⟩
        exact valid_force ⟨l, hl, rfl⟩ (.of_left_eq_singleton hs hleft) .nil
          (step l rs ⟨l, hl, rfl⟩ hpool)
      · rename_i l₀ m others hleft
        have hcommon := commonest_mem rs (occurrences rs l₀, l₀) (m :: others)
        generalize commonest rs (occurrences rs l₀, l₀) (m :: others) = l at hcommon
        have hl : Left rs l := ⟨s, hs, hleft ▸ hcommon⟩
        have hfirst := step l rs ⟨l, hl, rfl⟩ hpool
        split
        · rename_i path space heq
          rw [heq] at hfirst
          exact valid_found_of_after hl hfirst
        · rename_i conflict learnt heq
          rw [heq] at hfirst
          split
          · have hkept := Learnt.of_conflict hl hfirst
            have hneg : ∃ m, Left rs m ∧ m.atom = l.negate.atom := ⟨l, hl, rfl⟩
            refine valid_force hneg (.of_conflict hfirst) hkept
              (step l.negate _ hneg fun m hm => ?_)
            obtain ⟨k, hk, hatom⟩ := (hkept.append .refl).left m hm
            exact hatom ▸ hpool k hk
          · rename_i hnot
            exact valid_refuted_of_after ⟨l, hl, rfl⟩ hfirst (by simpa using hnot)

end Search.Outcome

end PreferenceLogic
