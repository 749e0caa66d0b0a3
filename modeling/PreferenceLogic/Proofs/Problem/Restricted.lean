import PreferenceLogic.Proofs.Problem.Described

/-!
# More constraints

The scores of an object are read off its labels, so they do not depend on the constraints. Further
constraints remove objects and with them their rows, and what is left stays as it was: the problem
is still loaded, and an optimal object that stays feasible stays optimal.

Definitions:
* `File.Extends`: a file of constraints has the lines of another one and further formulas.
* `Problem.Restricts`: a problem is another one with fewer objects.

Results:
* `Problem.restricts_of_extends`: further constraints only remove objects.
-/

namespace PreferenceLogic

/-! ## Stricter constraints -/

/-- A file has the content lines of another file of constraints and further lines, in whatever
order, and each of the further lines is a formula over the attributes. -/
structure File.Extends (attributes stricter constraints : List UInt8) (further : List Text) :
    Prop where
  decodable : Decodable stricter
  perm : (contentLines stricter).Perm (contentLines constraints ++ further)
  parses : ∀ v, Vocabulary.read attributes = .ok v →
    ∀ line ∈ further, ∃ f, Formula.parse v line = .ok f

section

variable {attributes stricter constraints : List UInt8} {further : List Text}
  (h : File.Extends attributes stricter constraints further)

include h

theorem File.Extends.exists_read {v : Vocabulary} (hv : Vocabulary.read attributes = .ok v)
    (hread : ∃ f, Formula.read v constraints = .ok f) : ∃ f, Formula.read v stricter = .ok f := by
  obtain ⟨-, hparsed⟩ := Formula.exists_read_iff.mp hread
  refine Formula.exists_read_iff.mpr ⟨h.decodable, fun line hline => ?_⟩
  rcases List.mem_append.mp (h.perm.mem_iff.mp hline) with hold | hnew
  · exact hparsed line hold
  · exact h.parses v hv line hnew

theorem Object.Satisfies.of_extends {x : Object} (hx : x.Satisfies stricter) :
    x.Satisfies constraints := fun line hline =>
  hx line (h.perm.mem_iff.mpr (List.mem_append_left further hline))

end

namespace Problem

/-! ## Fewer objects -/

/-- A problem is another one with fewer objects: the scores of the feasible objects are the same,
and those of them that were optimal still are. -/
structure Restricts (p' p : Problem) : Prop where
  rules : p'.rules = p.rules
  feasible : p'.feasible ⊆ p.feasible
  row? : ∀ id ∈ p'.feasible, ∃ row, p'.penalties.row? id = some row ∧
    p.penalties.row? id = some row
  degrees? : ∀ id ∈ p'.feasible, ∃ degrees, p'.degrees.degrees? id = some degrees ∧
    p.degrees.degrees? id = some degrees
  optimal : ∀ logic, ∀ id ∈ p.optimal logic, id ∈ p'.feasible → id ∈ p'.optimal logic

variable {config : Config} {attributes stricter constraints penalty qualitative : List UInt8}
  {further : List Text} {v : Vocabulary} {rules : Rulebook}

section

variable (h : File.Extends attributes stricter constraints further)

include h

theorem exists_of_mem_feasible {id : Nat}
    (hid : id ∈ (described v stricter rules).feasible) :
    ∃ x ∈ v.objects, x.id = id ∧ x.Satisfies stricter ∧
      v.satisfying? stricter id = some x ∧ v.satisfying? constraints id = some x := by
  obtain ⟨x, hx, rfl⟩ := List.mem_map.mp hid
  obtain ⟨hx, hstricter⟩ := mem_satisfying_iff.mp hx
  exact ⟨x, hx, rfl, hstricter, satisfying?_eq_some_iff.mpr ⟨hx, hstricter, rfl⟩,
    satisfying?_eq_some_iff.mpr ⟨hx, hstricter.of_extends h, rfl⟩⟩

theorem restricts_described :
    (described v stricter rules).Restricts (described v constraints rules) := by
  refine ⟨rfl, fun id hid => ?_, fun id hid => ?_, fun id hid => ?_, fun logic id hid hstays => ?_⟩
  · obtain ⟨x, hx, rfl, hstricter, -, -⟩ := exists_of_mem_feasible h hid
    exact List.mem_map_of_mem (mem_satisfying_iff.mpr ⟨hx, hstricter.of_extends h⟩)
  · obtain ⟨x, -, -, -, hfound, hfound'⟩ := exists_of_mem_feasible h hid
    exact ⟨PenaltyRow.declared rules.penalty x, by rw [row?_described, hfound]; rfl,
      by rw [row?_described, hfound']; rfl⟩
  · obtain ⟨x, -, -, -, hfound, hfound'⟩ := exists_of_mem_feasible h hid
    exact ⟨(DegreeRow.declared rules.choice x).degrees, by rw [degrees?_described, hfound]; rfl,
      by rw [degrees?_described, hfound']; rfl⟩
  · -- whatever could be preferred now could have been before
    obtain ⟨x, hx, rfl, hstricter, -, -⟩ := exists_of_mem_feasible h hstays
    rw [mem_optimal_described_iff hx] at hid ⊢
    exact ⟨hstricter, fun y hy hsat => hid.2 y hy (hsat.of_extends h)⟩

theorem Admits.of_extends
    (hadmits : Admits config attributes constraints penalty qualitative v rules) :
    Admits config attributes stricter penalty qualitative v rules :=
  { hadmits with constraints := h.exists_read hadmits.attributes hadmits.constraints }

theorem overdue?_of_extends (hnone : overdue? v constraints rules = none) :
    overdue? v stricter rules = none := by
  rw [overdue?, List.find?_eq_none] at hnone ⊢
  intro x hx
  obtain ⟨hx, hstricter⟩ := mem_satisfying_iff.mp hx
  exact hnone x (mem_satisfying_iff.mpr ⟨hx, hstricter.of_extends h⟩)

theorem exists_ofFiles_of_extends {p : Problem}
    (hp : ofFiles config attributes constraints penalty qualitative = .ok p) :
    ∃ p', ofFiles config attributes stricter penalty qualitative = .ok p' ∧ p'.Restricts p := by
  obtain ⟨v, rules, hadmits, hjudged⟩ := ofFiles_eq_ok_iff.mp hp
  obtain ⟨hnone, rfl⟩ := judged_eq_ok_iff.mp hjudged
  refine ⟨described v stricter rules, ?_, restricts_described h⟩
  exact ofFiles_eq_ok_iff.mpr ⟨v, rules, hadmits.of_extends h,
    judged_eq_ok_iff.mpr ⟨overdue?_of_extends h hnone, rfl⟩⟩

end

/-- **More constraints.** With oracles that are correct and never fail, a problem that is loaded is
also loaded with further constraints. The objects that are still feasible were feasible before, they
have the same penalties, totals and degrees, and those of them that were optimal still are. -/
theorem restricts_of_extends {σ σ' : Type} {o : Oracle σ} {o' : Oracle σ'} (ho : o.Reliable)
    (ho' : o'.Reliable) (config : Config) (penalty qualitative : List UInt8)
    (h : File.Extends attributes stricter constraints further) {s t : Session σ} {p : Problem}
    (hp : (load o config (.ofContents attributes constraints penalty qualitative)).Returns s p t)
    (s' : Session σ') :
    (∃ p' t', (load o' config (.ofContents attributes stricter penalty qualitative)).Returns
      s' p' t') ∧
    ∀ p' t', (load o' config (.ofContents attributes stricter penalty qualitative)).Returns
      s' p' t' → p'.Restricts p := by
  have hgives := load_gives ho config attributes constraints penalty qualitative
  have hgives' := load_gives ho' config attributes stricter penalty qualitative
  obtain ⟨p', hp', hrestricts⟩ := exists_ofFiles_of_extends h (hgives.eq_ok_of_returns hp)
  refine ⟨(hgives'.exists_returns_iff s').mpr ⟨p', hp'⟩, fun q t' hq => ?_⟩
  rw [hgives'.eq_ok_of_returns hq] at hp'
  cases hp'
  exact hrestricts

/-- Asking for red wine too leaves it with meat and with fish. -/
theorem restricts_of_extends_dinner :
    ∃ p t p' t', (load Oracle.exact {} (dinner "fish OR NOT white\n")).Returns { oracle := 0 } p t ∧
      (load Oracle.exact {} (dinner "red\nfish OR NOT white\n")).Returns { oracle := 0 } p' t' ∧
      p'.feasible = [0, 2] ∧ p'.Restricts p := by
  obtain ⟨p, t, hp, -⟩ := exists_load_dinner
  obtain ⟨p', t', hp', hids⟩ : ∃ p' t',
      (load Oracle.exact {} (dinner "red\nfish OR NOT white\n")).Returns { oracle := 0 } p' t' ∧
        p'.feasible = [0, 2] := Evaluation.exists_returns_of_map_eq (by decide +kernel)
  have hextends : File.Extends dinnerAttributes (bytes "red\nfish OR NOT white\n")
      (bytes "fish OR NOT white\n") ["red".toList] := by
    refine ⟨by decide +kernel, by decide +kernel, fun v hv line hline => ?_⟩
    have hdinner : Vocabulary.read dinnerAttributes = .ok dinnerVocabulary := by decide +kernel
    rw [hdinner] at hv
    cases hv
    rw [List.mem_singleton.mp hline]
    obtain ⟨f, hf, -⟩ : ∃ f, Formula.parse dinnerVocabulary "red".toList = .ok f ∧
        f.clauses = [[⟨1, false⟩]] := map_eq_ok_iff.mp (by decide +kernel)
    exact ⟨f, hf⟩
  obtain ⟨-, hrestricts⟩ := restricts_of_extends Oracle.reliable_exact Oracle.reliable_exact {}
    dinnerPenalties dinnerChoices hextends hp { oracle := 0 }
  exact ⟨p, t, p', t', hp, hp', hids, hrestricts p' t' hp'⟩

end Problem

end PreferenceLogic
